import EvmState.Client.Calls
import EvmState.Proof.Remote

/-!
# When an honest server verifies

On a database that does not change, a local execution reads what the server's did,
as long as the code it asks for is still held (`play_local`). It is not the server's
execution, though: the server sets the block number and the gas limit of the head,
the client leaves its block environment unset. So a call verifies exactly when that
makes no difference to the outcome (`call_verifies_iff`).
-/

namespace EvmState

open RemoteDb

/-- What a call returns of an execution. -/
def outcome {ε : Type} : Except ε (Except EvmError ResultAndState) → Option PrefetchResult
  | .ok (.ok r) => some ⟨r.result.output.getD [], r.result.isSuccess⟩
  | _ => none

theorem outcome_mapError {ε ε' : Type} (f : ε → ε')
    (r : Except ε (Except EvmError ResultAndState)) : outcome (r.mapError f) = outcome r := by
  cases r with
  | error e => rfl
  | ok r => cases r <;> rfl

/-- Failures of the database are the server's; outcomes are not affected. -/
theorem outcome_served (db : StateDb) (e : Execution) :
    outcome (e.eval (served db)) = outcome (e.eval db.view) := by
  have := Dialogue.eval_mapError db.view (fun _ => ClientError.server 500) e
  rw [← outcome_mapError (fun _ => ClientError.server 500) (e.eval db.view), ← this]
  rfl

theorem localResult_eq_ok {r : Except ClientError (Except EvmError ResultAndState)}
    {ran : PrefetchResult} : localResult r = .ok ran ↔ outcome r = some ran := by
  cases r with
  | error e => simp [localResult, outcome]
  | ok r => cases r <;> simp [localResult, outcome]

/-- Whenever the run asks for code, it is still cached, or the server has none. -/
def CodeHeld (db : StateDb) : Execution → RemoteCache → Prop
  | .done _, _ => True
  | .ask q k, c =>
      (∀ h, q = .codeByHash h → db.codeByHashRef h = [] ∨ h ∈ c.code.keys)
        ∧ ∀ answer c', RemoteDb.read db q c = .ok (answer, c') → CodeHeld db (k answer) c'

/-- It is decided by making the run. -/
def decideCodeHeld (db : StateDb) : (e : Execution) → (c : RemoteCache) → Decidable (CodeHeld db e c)
  | .done _, _ => .isTrue trivial
  | .ask q k, c =>
      have : Decidable (∀ h, q = .codeByHash h → db.codeByHashRef h = [] ∨ h ∈ c.code.keys) :=
        match q with
        | .codeByHash h => decidable_of_iff (db.codeByHashRef h = [] ∨ h ∈ c.code.keys)
            ⟨fun hheld _ heq => Query.codeByHash.inj heq ▸ hheld, fun hheld => hheld h rfl⟩
        | .basic _ | .storage _ _ | .step _ => .isTrue fun _ heq => nomatch heq
      have : Decidable (∀ answer c', RemoteDb.read db q c = .ok (answer, c') →
          CodeHeld db (k answer) c') :=
        match hread : RemoteDb.read db q c with
        | .error e => .isTrue fun _ _ heq => nomatch heq
        | .ok (answer, c') =>
            match decideCodeHeld db (k answer) c' with
            | .isTrue hheld => .isTrue fun _ _ heq => by
                cases heq
                exact hheld
            | .isFalse hheld => .isFalse fun hall => hheld (hall _ _ rfl)
      inferInstanceAs (Decidable (_ ∧ _))

instance (db : StateDb) (e : Execution) (c : RemoteCache) : Decidable (CodeHeld db e c) :=
  decideCodeHeld db e c

section Local

variable {evm : Evm} {spec : ChainSpec} {db : StateDb} {c : RemoteCache} {used : List B256}

/-- **A local execution alone on a database that stays** reads the server's values. -/
theorem play_local (ht : Tracks db c used) {e : Execution} (hheld : CodeHeld db e c) (told : ReadLog) :
    ((e.interp Steps.read told).play (Act.perform evm spec db) c).1
      = (told ++ e.transcript (served db), e.eval (served db)) := by
  induction e generalizing c used told with
  | done r => simp [Dialogue.interp, Dialogue.play, Dialogue.transcript, Dialogue.eval]
  | ask q k ih =>
      obtain ⟨hcode, hrest⟩ := hheld
      have hserved : (RemoteDb.read db q c).map Prod.fst = served db q := by
        -- an account, slot or block hash is served as the database has it; code is by `CodeHeld`,
        -- since the cache may still have what another database filed under the hash
        by_cases hq : ∃ h, q = .codeByHash h
        · obtain ⟨h, rfl⟩ := hq
          exact (read_code_served_iff ht).mpr (hcode h rfl)
        · exact read_served ht fun h heq => hq ⟨h, heq⟩
      rw [Dialogue.interp, Dialogue.play_bind, Steps.play_read, Dialogue.transcript, Dialogue.eval,
        ← hserved]
      cases hread : RemoteDb.read db q c with
      | error e => simp [Steps.settle, Dialogue.play, Except.map]
      | ok p =>
          obtain ⟨answer, c'⟩ := p
          -- one read of the cache is one step of the history, so `Tracks` carries to the rest
          have ht' := @Tracks.step evm spec db c used ht (.read q)
          rw [step, hread] at ht'
          have := ih answer ht' (hrest answer c' hread) (told ++ [⟨q, answer⟩])
          simp only [Steps.settle, Except.map, this, List.append_assoc, List.singleton_append]

end Local

/-- The call returns, says that it is verified, and has the server's output and success. -/
def Verifies (resp : PrefetchResponse) (r : Except ClientError CallResult) : Prop :=
  ∃ result, r = .ok result ∧ result.verified = some true
    ∧ decodeBytes resp.result = .ok result.output ∧ result.success = resp.success

theorem verifies_compareRuns {resp : PrefetchResponse} {server : PrefetchResult}
    (hresult : decodeBytes resp.result = .ok server.result) (hsuccess : resp.success = server.success)
    (r : Except ClientError PrefetchResult) :
    Verifies resp (r.map (compareRuns server)) ↔ r = .ok server := by
  constructor
  · intro h
    obtain ⟨result, hr, _, houtput, hsucc⟩ := h
    cases r with
    | error e => cases hr
    | ok ran =>
        obtain rfl := Except.ok.inj hr
        rw [hresult, Except.ok.injEq] at houtput
        rw [hsuccess] at hsucc
        cases ran
        cases server
        -- the server result sent back is the one compared, so equal fields make the records equal
        simp_all [compareRuns]
  · intro h
    subst h
    exact ⟨_, rfl, by simp [compareRuns], by rw [hresult]; rfl, by rw [hsuccess]; rfl⟩

section Call

variable {evm : Evm} {spec : ChainSpec} {db : StateDb} {c : RemoteCache} {used : List B256}

/-- The execution that the client runs of a call that the server answers. -/
def clientExecution (evm : Evm) (spec : ChainSpec) (db : StateDb) (toAddr : Address)
    (calldata : Bytes) (fromAddr : Option Address) (value : Option U256) : Execution :=
  localExecution evm (spec.specAt db.headOrZero 0) toAddr calldata fromAddr value

/-- The execution that the server runs of it. -/
def serverExecution (evm : Evm) (spec : ChainSpec) (db : StateDb) (toAddr : Address)
    (calldata : Bytes) (fromAddr : Option Address) (value : Option U256) : Execution :=
  prefetchExecution evm spec db.headOrZero ⟨toAddr, fromAddr.getD 0, calldata, value.getD 0⟩

/-- What a client in verify mode returns of a call, alone on a database that stays. -/
def verifyCall (evm : Evm) (spec : ChainSpec) (db : StateDb) (toAddr : Address) (calldata : Bytes)
    (fromAddr : Option Address) (value : Option U256) (c : RemoteCache) :
    Except ClientError CallResult :=
  ((StateClient.call evm (spec.specAt db.headOrZero 0) .verify toAddr calldata fromAddr value).play
    (Act.perform evm spec db) c).1.2

variable {toAddr : Address} {calldata : Bytes} {fromAddr : Option Address} {value : Option U256}
  {resp : PrefetchResponse}

/-- The prefetch of a call, as the client takes it. -/
theorem prefetch_result
    (h : postPrefetch evm db spec (prefetchRequest toAddr calldata fromAddr value) = .ok resp) :
    ∃ server, outcome ((serverExecution evm spec db toAddr calldata fromAddr value).eval db.view)
        = some server
      ∧ decodeBytes resp.result = .ok server.result ∧ resp.success = server.success
      ∧ ∀ c, (RemoteDb.prefetch evm spec db (prefetchRequest toAddr calldata fromAddr value) c).2
        = .ok server := by
  have hpre := h
  rw [postPrefetch, parse_prefetchRequest] at hpre
  obtain ⟨_, r, _, _, hr, hresult, hsuccess, hreceive⟩ := receive_prefetch hpre
  refine ⟨⟨r.result.output.getD [], r.result.isSuccess⟩, ?_, hresult, hsuccess, fun c => ?_⟩
  · rw [serverExecution, hr]
    rfl
  · rw [RemoteDb.prefetch_of_ok h]
    simp only [hreceive]

/-- **A call alone on a database that stays** compares the two executions on it. -/
theorem verifyCall_eq (ht : Tracks db c used)
    (h : postPrefetch evm db spec (prefetchRequest toAddr calldata fromAddr value) = .ok resp)
    (hheld : CodeHeld db (clientExecution evm spec db toAddr calldata fromAddr value)
      (step evm spec db c (.prefetch toAddr calldata fromAddr value))) :
    Verifies resp (verifyCall evm spec db toAddr calldata fromAddr value c)
      ↔ outcome ((clientExecution evm spec db toAddr calldata fromAddr value).eval db.view)
        = outcome ((serverExecution evm spec db toAddr calldata fromAddr value).eval db.view) := by
  obtain ⟨server, houtcome, hresult, hsuccess, hprefetch⟩ := prefetch_result h
  -- the prefetch answers with what the server ran; what is left of the call is the local run
  have hreturned : verifyCall evm spec db toAddr calldata fromAddr value c
      = (localResult ((clientExecution evm spec db toAddr calldata fromAddr value).eval
          (served db))).map (compareRuns server) := by
    have ht' := @Tracks.step evm spec db c used ht (.prefetch toAddr calldata fromAddr value)
    have hlocal := @play_local evm spec db _ _ ht' _ hheld []
    simp only [verifyCall, StateClient.call, Dialogue.play_bind, Steps.play_prefetch, hprefetch,
      StateClient.resume, StateClient.executeLocally]
    rw [step, clientExecution] at hlocal
    rw [hlocal]
    rfl
  rw [hreturned, verifies_compareRuns hresult hsuccess, localResult_eq_ok, houtcome, outcome_served]

end Call

/--
**When an honest server verifies.** The database stays, the client has the server's
fork and has made any calls before. If no code its own execution asks for was pushed
out, a call that the server answers verifies exactly when its execution in revm's
default block environment has the outcome it has in the server's.
-/
theorem call_verifies_iff {evm : Evm} {spec : ChainSpec} {db : StateDb} {capacity : Nat}
    (pos : 0 < capacity) (calls : List Call) {toAddr : Address} {calldata : Bytes}
    {fromAddr : Option Address} {value : Option U256} {resp : PrefetchResponse}
    (h : postPrefetch evm db spec (prefetchRequest toAddr calldata fromAddr value) = .ok resp) :
    let c := run evm spec db (.new capacity pos) calls
    let client := clientExecution evm spec db toAddr calldata fromAddr value
    let server := serverExecution evm spec db toAddr calldata fromAddr value
    CodeHeld db client (step evm spec db c (.prefetch toAddr calldata fromAddr value)) →
      (Verifies resp (verifyCall evm spec db toAddr calldata fromAddr value c)
        ↔ outcome (client.eval db.view) = outcome (server.eval db.view)) := by
  intro c client server hheld
  exact verifyCall_eq ((tracks_new db capacity pos).run calls) h hheld

/-! ## A contract that returns the block number -/

/-- The contract at head 5. -/
def numberDb : StateDb :=
  StateDb.empty.commit
    [.setAccount 0xC ⟨1, 0, smallKeccak256 numberCode⟩,
      .setCode (smallKeccak256 numberCode) numberCode, .setHeadBlock 5]

/-- The outcome of a run of it that finds this block number. -/
def numberOutcome (n : U256) : PrefetchResult := ⟨beOf 32 n, true⟩

theorem codeHeld_number :
    CodeHeld numberDb (clientExecution (.small smallKeccak256) ethereumMainnet numberDb 0xC [] none none)
      (step (.small smallKeccak256) ethereumMainnet numberDb (.new 1 (by decide))
        (.prefetch 0xC [] none none)) := by
  decide +kernel

theorem postPrefetch_number : ∃ resp,
    postPrefetch (.small smallKeccak256) numberDb ethereumMainnet (prefetchRequest 0xC [] none none)
      = .ok resp := by
  have hok : (EvmState.prefetch (.small smallKeccak256) numberDb ethereumMainnet
      ⟨0xC, 0, [], 0⟩).isOk = true := by decide +kernel
  rw [postPrefetch, parse_prefetchRequest]
  simp only [Option.getD_none]
  generalize EvmState.prefetch (.small smallKeccak256) numberDb ethereumMainnet ⟨0xC, 0, [], 0⟩ = r
    at hok
  cases r with
  | error e => cases hok
  | ok resp => exact ⟨resp, rfl⟩

/-- The server returns 5 and the client 0: the call is not verified. -/
theorem call_of_number :
    let evm := Evm.small smallKeccak256
    ∃ resp,
      postPrefetch evm numberDb ethereumMainnet (prefetchRequest 0xC [] none none) = .ok resp
      ∧ outcome ((serverExecution evm ethereumMainnet numberDb 0xC [] none none).eval numberDb.view)
        = some (numberOutcome 5)
      ∧ outcome ((clientExecution evm ethereumMainnet numberDb 0xC [] none none).eval numberDb.view)
        = some (numberOutcome 0)
      ∧ ¬ Verifies resp (verifyCall evm ethereumMainnet numberDb 0xC [] none none
          (.new 1 (by decide))) := by
  intro evm
  obtain ⟨resp, hresp⟩ := postPrefetch_number
  have hserver : outcome ((serverExecution evm ethereumMainnet numberDb 0xC [] none none).eval
      numberDb.view) = some (numberOutcome 5) := by decide +kernel
  have hclient : outcome ((clientExecution evm ethereumMainnet numberDb 0xC [] none none).eval
      numberDb.view) = some (numberOutcome 0) := by decide +kernel
  refine ⟨resp, hresp, hserver, hclient, ?_⟩
  rw [verifyCall_eq (tracks_new numberDb 1 (by decide)) hresp codeHeld_number, hserver, hclient]
  decide

theorem call_verifies_iff_number :
    let evm := Evm.small smallKeccak256
    ∃ resp,
      postPrefetch evm numberDb ethereumMainnet (prefetchRequest 0xC [] none none) = .ok resp
      ∧ (Verifies resp (verifyCall evm ethereumMainnet numberDb 0xC [] none none
            (.new 1 (by decide)))
        ↔ outcome ((clientExecution evm ethereumMainnet numberDb 0xC [] none none).eval
            numberDb.view)
          = outcome ((serverExecution evm ethereumMainnet numberDb 0xC [] none none).eval
            numberDb.view)) := by
  intro evm
  obtain ⟨resp, hresp⟩ := postPrefetch_number
  exact ⟨resp, hresp, call_verifies_iff (by decide) [] hresp codeHeld_number⟩

end EvmState
