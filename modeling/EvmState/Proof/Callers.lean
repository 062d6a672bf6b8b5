import EvmState.Client.Remote
import EvmState.Proof.Slice
import EvmState.Proof.StateDb

/-!
# Whose calls a prefetch serves

A view call is no transaction anybody signed, yet it goes through the validation of
one: the nonce of the environment is the default, zero, and neither the nonce check
nor the check of the caller's code is switched off. So a call is served exactly when
its caller happens to look like an account that has never sent anything
(`postPrefetch_serves_iff`).
-/

namespace EvmState

open Std

/-! ## What validation looks at -/

/-- The caller of a transaction as validation sees it. -/
structure Caller where
  nonce : U64
  balance : U256
  code : Bytes
deriving DecidableEq, Repr

/-- An account that is not there has nothing, and the hash of empty code is not looked up. -/
def callerOf {ε : Type} (view : (q : Query) → Except ε q.Answer) (a : Address) : Except ε Caller :=
  match view (.basic a) with
  | .error e => .error e
  | .ok none => .ok ⟨0, 0, []⟩
  | .ok (some info) =>
      if info.codeHash = KECCAK256_EMPTY then .ok ⟨info.nonce, info.balance, []⟩
      else (view (.codeByHash info.codeHash)).map fun code => ⟨info.nonce, info.balance, code⟩

/-- Every question is answered. -/
def Total {ε : Type} (view : (q : Query) → Except ε q.Answer) : Prop := ∀ q, ∃ a, view q = .ok a

theorem Total.caller {ε : Type} {view : (q : Query) → Except ε q.Answer} (h : Total view)
    (a : Address) : ∃ caller, callerOf view a = .ok caller := by
  obtain ⟨o, ho⟩ := h (.basic a)
  unfold callerOf
  rw [ho]
  cases o with
  | none => exact ⟨_, rfl⟩
  | some info =>
      -- code is asked for only when the account has some
      by_cases hempty : info.codeHash = KECCAK256_EMPTY
      · exact ⟨_, if_pos hempty⟩
      · obtain ⟨code, hcode⟩ := h (.codeByHash info.codeHash)
        exact ⟨⟨info.nonce, info.balance, code⟩, by simp [hempty, hcode, Except.map]⟩

/-- The checks of a legacy call that do not look at the caller. -/
structure CallChecks (intrinsicGas : SpecId → TxEnv → Nat) (cfg : CfgEnv) (block : BlockEnv)
    (tx : TxEnv) : Prop where
  legacy : tx.txType = 0
  call : ∃ target, tx.kind = .call target
  header : Evm.validHeader cfg.spec block = true
  chain : tx.chainId = some cfg.chainId
  gasLimit : tx.gasLimit ≤ block.gasLimit
  price : block.basefee.toNat ≤ tx.gasPrice.toNat
  intrinsic : intrinsicGas cfg.spec tx ≤ tx.gasLimit.toNat

/--
revm's validation of a legacy call that passes those checks: a nonce other than the
caller's, or a caller whose code may not send, is an error of the transaction; if the
caller can also pay, the call is executed. No code is code that may send.
-/
structure Evm.ValidationRules (evm : Evm) (intrinsicGas : SpecId → TxEnv → Nat)
    (maySend : Bytes → Prop) : Prop where
  noCode : maySend []
  rejected : ∀ {cfg : CfgEnv} {block : BlockEnv} {tx : TxEnv}
    {view : (q : Query) → Except DbError q.Answer} {caller : Caller},
    Total view → CallChecks intrinsicGas cfg block tx → callerOf view tx.caller = .ok caller →
      (caller.nonce ≠ tx.nonce ∨ ¬ maySend caller.code) →
      ∃ reason, (evm.replay cfg block tx).eval view = .ok (.error (.transaction reason))
  accepted : ∀ {cfg : CfgEnv} {block : BlockEnv} {tx : TxEnv}
    {view : (q : Query) → Except DbError q.Answer} {caller : Caller},
    Total view → CallChecks intrinsicGas cfg block tx → callerOf view tx.caller = .ok caller →
      caller.nonce = tx.nonce → maySend caller.code →
      tx.gasLimit.toNat * tx.gasPrice.toNat + tx.value.toNat ≤ caller.balance.toNat →
      ∃ r, (evm.replay cfg block tx).eval view = .ok (.ok r)

/-! ## The environment of a prefetch -/

/-- Whatever the head, all that is asked of a view call is that its data fits the gas limit. -/
theorem callChecks_prefetch {intrinsicGas : SpecId → TxEnv → Nat} (specId : SpecId) (head : U64)
    {call : ViewCall} (hgas : intrinsicGas specId call.txEnv ≤ 30000000) :
    CallChecks intrinsicGas (.default specId) (prefetchBlockEnv head) call.txEnv where
  legacy := rfl
  call := ⟨call.toAddr, rfl⟩
  header := by simp [Evm.validHeader, prefetchBlockEnv, BlockEnv.default]
  chain := rfl
  gasLimit := by simp [ViewCall.txEnv, prefetchBlockEnv]
  price := by simp [prefetchBlockEnv]
  intrinsic := hgas

section Database

variable {db : StateDb} (hdb : db.WellFormed)

include hdb

theorem total_view : Total db.view := by
  intro q
  cases q with
  | basic a => exact hdb.getAccount_ok a
  | storage a s => exact hdb.storageRef_ok a s
  | codeByHash h => exact ⟨_, rfl⟩
  | step i => exact ⟨(), rfl⟩

/-- What is recorded can be sent. -/
theorem sliceSlots_ok (a : Address) (slots : List B256) : ∃ part, sliceSlots db a slots = .ok part := by
  obtain ⟨values, hvalues⟩ := Lists.mapM_ok_of_forall (l := slots)
    (f := fun slot => (db.storageRef a slot).map fun val => (B256.toHex slot, U256.toHex val))
    fun slot _ => by
      obtain ⟨v, hv⟩ := hdb.storageRef_ok a slot
      rw [hv]
      exact ⟨_, rfl⟩
  rw [sliceSlots, hvalues]
  exact ⟨_, rfl⟩

theorem stateSlice_answers (acc : Accesses) : ∃ slice, stateSlice db acc = .ok slice := by
  obtain ⟨parts, hparts⟩ := Lists.mapM_ok_of_forall
    (f := fun e : Address × ExtTreeSet B256 compare => sliceSlots db e.1 e.2.toList)
    (l := acc.toList.filter (fun e => !e.2.isEmpty)) fun e _ => sliceSlots_ok hdb e.1 e.2.toList
  rw [stateSlice, sliceStorage, hparts]
  exact ⟨_, rfl⟩

/-- A prefetch answers with whatever its execution comes to. -/
theorem prefetch_of_eval {evm : Evm} {spec : ChainSpec} {call : ViewCall}
    {outcome : Except EvmError ResultAndState}
    (h : (prefetchExecution evm spec db.headOrZero call).eval db.view = .ok outcome) :
    (∀ r, outcome = .ok r → ∃ resp, prefetch evm db spec call = .ok resp)
      ∧ ∀ e, outcome = .error e → prefetch evm db spec call = .error (.internal (.evm e)) := by
  obtain ⟨head, hhead, _⟩ := hdb.getHeadBlock_ok
  have hzero : db.headOrZero = head.getD 0 := by rw [StateDb.headOrZero, hhead]
  rw [hzero] at h
  constructor
  · intro r hr
    subst hr
    -- reading the slice cannot fail on a well-formed database
    obtain ⟨slice, hslice⟩ := stateSlice_answers hdb
      (call.accesses ((prefetchExecution evm spec (head.getD 0) call).asked db.view))
    simp only [prefetch, hhead, h, hslice]
    exact ⟨_, rfl⟩
  · intro e he
    subst he
    simp only [prefetch, hhead, h]

end Database

/-! ## Which callers are served -/

section Served

variable {evm : Evm} {intrinsicGas : SpecId → TxEnv → Nat} {maySend : Bytes → Prop} {db : StateDb}
  {spec : ChainSpec} {call : ViewCall} {caller : Caller}

/-- A caller that validation takes for a sender with another nonce, or for a contract, is refused. -/
theorem prefetch_refused (hrules : evm.ValidationRules intrinsicGas maySend) (hdb : db.WellFormed)
    (hcaller : callerOf db.view call.fromAddr = .ok caller)
    (hgas : intrinsicGas (spec.specAt db.headOrZero 0) call.txEnv ≤ 30000000)
    (hbad : caller.nonce ≠ 0 ∨ ¬ maySend caller.code) :
    ∃ reason, prefetch evm db spec call = .error (.internal (.evm (.transaction reason))) := by
  obtain ⟨reason, heval⟩ := hrules.rejected (total_view hdb)
    (callChecks_prefetch (spec.specAt db.headOrZero 0) db.headOrZero hgas) hcaller hbad
  exact ⟨reason, (prefetch_of_eval hdb heval).2 _ rfl⟩

/-- Any other caller that has the value is served. -/
theorem prefetch_served (hrules : evm.ValidationRules intrinsicGas maySend) (hdb : db.WellFormed)
    (hcaller : callerOf db.view call.fromAddr = .ok caller)
    (hgas : intrinsicGas (spec.specAt db.headOrZero 0) call.txEnv ≤ 30000000)
    (hvalue : call.value ≤ caller.balance) (hnonce : caller.nonce = 0)
    (hcode : maySend caller.code) : ∃ resp, prefetch evm db spec call = .ok resp := by
  -- gas is free, so the value is all there is to pay
  have hpay : call.txEnv.gasLimit.toNat * call.txEnv.gasPrice.toNat + call.txEnv.value.toNat
      ≤ caller.balance.toNat := by
    have hle : call.value.toNat ≤ caller.balance.toNat := hvalue
    simpa [ViewCall.txEnv] using hle
  obtain ⟨r, heval⟩ := hrules.accepted (total_view hdb)
    (callChecks_prefetch (spec.specAt db.headOrZero 0) db.headOrZero hgas) hcaller hnonce hcode hpay
  exact (prefetch_of_eval hdb heval).1 r rfl

/--
**Who a prefetch serves.** On any database that can be read, and for any call whose data fits
the gas limit and whose value the caller has, there is an execution result exactly when the
caller has nonce zero and no code that keeps it from sending; for every other caller the
answer is a validation error.
-/
theorem postPrefetch_serves_iff (hrules : evm.ValidationRules intrinsicGas maySend)
    (hdb : db.WellFormed) {req : PrefetchRequest} (hcall : req.parse = .ok call)
    (hcaller : callerOf db.view call.fromAddr = .ok caller)
    (hgas : intrinsicGas (spec.specAt db.headOrZero 0) call.txEnv ≤ 30000000)
    (hvalue : call.value ≤ caller.balance) :
    ((∃ resp, postPrefetch evm db spec req = .ok resp) ↔ caller.nonce = 0 ∧ maySend caller.code)
      ∧ (¬ (caller.nonce = 0 ∧ maySend caller.code) →
          ∃ reason, postPrefetch evm db spec req
            = .error (.internal (.evm (.transaction reason)))) := by
  have hpost : postPrefetch evm db spec req = prefetch evm db spec call := by
    rw [postPrefetch, hcall]
  rw [hpost]
  have hrefused : ¬ (caller.nonce = 0 ∧ maySend caller.code) →
      ∃ reason, prefetch evm db spec call = .error (.internal (.evm (.transaction reason))) :=
    fun hno => prefetch_refused hrules hdb hcaller hgas (not_and_or.mp hno)
  refine ⟨⟨fun hresp => ?_, fun hok => ?_⟩, hrefused⟩
  · -- a caller that is not accepted is refused, so no response exists
    by_contra hno
    obtain ⟨resp, hresp⟩ := hresp
    obtain ⟨reason, herr⟩ := hrefused hno
    rw [herr] at hresp
    cases hresp
  · obtain ⟨hnonce, hcode⟩ := hok
    exact prefetch_served hrules hdb hcaller hgas hvalue hnonce hcode

end Served

/-! ## A caller that has sent before -/

/-- The verdict on a caller, and an execution that does nothing. -/
def judge (tx : TxEnv) (caller : Caller) : Except EvmError ResultAndState :=
  if caller.nonce ≠ tx.nonce then .error (.transaction "nonce")
  else if caller.code ≠ [] then .error (.transaction "caller has code")
  else if caller.balance.toNat < tx.gasLimit.toNat * tx.gasPrice.toNat + tx.value.toNat then
    .error (.transaction "lack of funds")
  else .ok ⟨.success [] 21000, ∅⟩

/-- The code of an account is looked up, unless its hash says that it is empty. -/
def judgeAccount (tx : TxEnv) : Option AccountInfo → Execution
  | none => .done (judge tx ⟨0, 0, []⟩)
  | some info =>
      if info.codeHash = KECCAK256_EMPTY then .done (judge tx ⟨info.nonce, info.balance, []⟩)
      else .ask (.codeByHash info.codeHash) fun code =>
        .done (judge tx ⟨info.nonce, info.balance, code⟩)

/-- revm with executions that validate the caller and stop. -/
def Evm.validating : Evm :=
  .ofCacheDb (fun _ => KECCAK256_EMPTY) (fun _ _ tx => .ask (.basic tx.caller) (judgeAccount tx))
    fun _ _ _ => .done (.ok ⟨.success [] 0, ∅⟩)

/-- The gas of a call before it runs, its bytes taken as the expensive ones. -/
def callGas (_ : SpecId) (tx : TxEnv) : Nat := 21000 + 16 * tx.data.length

theorem eval_validating {cfg : CfgEnv} {block : BlockEnv} {tx : TxEnv}
    {view : (q : Query) → Except DbError q.Answer} :
    (Evm.validating.replay cfg block tx).eval view = (callerOf view tx.caller).map (judge tx) := by
  have hreplay : Evm.validating.replay cfg block tx = .ask (.basic tx.caller) (judgeAccount tx) := rfl
  rw [hreplay, Dialogue.eval, callerOf]
  cases view (.basic tx.caller) with
  | error e => rfl
  | ok o =>
      cases o with
      | none => rfl
      | some info =>
          by_cases hempty : info.codeHash = KECCAK256_EMPTY
          · simp [judgeAccount, hempty, Dialogue.eval, Except.map]
          · simp only [judgeAccount, if_neg hempty, Dialogue.eval]
            cases view (.codeByHash info.codeHash) <;> rfl

theorem validating_rules : Evm.validating.ValidationRules callGas (· = []) where
  noCode := rfl
  rejected := by
    intro cfg block tx view caller _ _ hcaller hbad
    rw [eval_validating, hcaller]
    by_cases hnonce : caller.nonce = tx.nonce
    · have hcode : caller.code ≠ [] := hbad.resolve_left (fun h => h hnonce)
      exact ⟨"caller has code", by simp [Except.map, judge, hnonce, hcode]⟩
    · exact ⟨"nonce", by simp [Except.map, judge, hnonce]⟩
  accepted := by
    intro cfg block tx view caller _ _ hcaller hnonce hcode hpay
    rw [eval_validating, hcaller]
    exact ⟨⟨.success [] 21000, ∅⟩, by simp [Except.map, judge, hnonce, hcode, Nat.not_lt.mpr hpay]⟩

/-- An account that has sent one transaction, and one that has only received. -/
def spentDb : StateDb :=
  StateDb.empty.commit [.setAccount 0xA ⟨1, 100, 0⟩, .setAccount 0xD ⟨0, 100, 0⟩]

theorem wellFormed_spentDb : spentDb.WellFormed := StateDb.wellFormed_commit StateDb.wellFormed_empty _

/-- A call of an account by the first of them is no call that validation lets through. -/
theorem postPrefetch_refuses_spent :
    Evm.validating.ValidationRules callGas (· = []) ∧ spentDb.WellFormed
      ∧ callerOf spentDb.view 0xA = .ok ⟨1, 100, []⟩
      ∧ (RemoteDb.prefetchRequest 0xB [] (some 0xA) none).parse = .ok ⟨0xB, 0xA, [], 0⟩
      ∧ callGas .PRAGUE (ViewCall.txEnv ⟨0xB, 0xA, [], 0⟩) ≤ 30000000
      ∧ ∃ reason, postPrefetch .validating spentDb ethereumMainnet
          (RemoteDb.prefetchRequest 0xB [] (some 0xA) none)
            = .error (.internal (.evm (.transaction reason))) := by
  have hcaller : callerOf spentDb.view 0xA = .ok ⟨1, 100, []⟩ := by decide
  have hparse := RemoteDb.parse_prefetchRequest 0xB [] (some 0xA) none
  have hrefused : ∃ reason, prefetch .validating spentDb ethereumMainnet ⟨0xB, 0xA, [], 0⟩
      = .error (.internal (.evm (.transaction reason))) :=
    prefetch_refused validating_rules wellFormed_spentDb hcaller (by decide) (.inl (by decide))
  obtain ⟨reason, hrefused⟩ := hrefused
  refine ⟨validating_rules, wellFormed_spentDb, hcaller, hparse, by decide, reason, ?_⟩
  rw [postPrefetch, hparse]
  exact hrefused

/-- The other one is served. -/
theorem postPrefetch_serves_iff_unspent :
    ∃ resp, postPrefetch .validating spentDb ethereumMainnet
      (RemoteDb.prefetchRequest 0xB [] (some 0xD) (some 5)) = .ok resp := by
  have hcaller : callerOf spentDb.view 0xD = .ok ⟨0, 100, []⟩ := by decide
  have hparse := RemoteDb.parse_prefetchRequest 0xB [] (some 0xD) (some 5)
  have hgas : callGas (ethereumMainnet.specAt spentDb.headOrZero 0)
      (ViewCall.txEnv ⟨0xB, 0xD, [], 5⟩) ≤ 30000000 := by decide
  obtain ⟨hiff, -⟩ := postPrefetch_serves_iff validating_rules wellFormed_spentDb hparse hcaller
    hgas (by decide)
  exact hiff.mpr ⟨rfl, rfl⟩

end EvmState
