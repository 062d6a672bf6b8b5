import EvmState.Client.Threads
import EvmState.Proof.Verify
import EvmState.Replayer.Block

/-!
# What a verified call depends on

Behind its prefetch a call runs on whatever the client has: entries that earlier calls
left and the response does not overwrite, entries that other calls file meanwhile, and
answers to requests that the server gives later. An account that is gone is not even in
the response, so a stale entry of it stays (`stale_account_is_read`). Where none of this
touches what the call reads, its reads are those of the database that answered the
prefetch, so the caches before it make no difference (`calls_agree`).
-/

namespace EvmState

open Threads RemoteDb

/-- What is cached of these reads is what a database answers. -/
def Fits (db : StateDb) (T : Query → Prop) (c : RemoteCache) : Prop :=
  ∀ q, T q → ∀ v, c.cached q = some v → db.view q = .ok v

/-- So are these entries. -/
def EntriesFit (db : StateDb) (T : Query → Prop) (l : List Entry) : Prop :=
  ∀ e ∈ l, T e.1 → db.view e.1 = .ok e.2

/-- The response has no entry for the read. -/
def PrefetchResponse.Lacks (resp : PrefetchResponse) (q : Query) : Prop :=
  ∀ e ∈ resp.entries, e.1 ≠ q

/-- A request is answered as a database would, and code that is looked up was not pushed out. -/
def AnsweredAs (db : StateDb) (T : Query → Prop) (s : Connection) : Act → Prop
  | .getAccount a => T (.basic a) → s.db.getAccount a = db.getAccount a
  | .getCode a h =>
      T (.basic a) → s.db.getAccount a = db.getAccount a ∧ s.db.getCode h = db.getCode h
  | .getStorage a index => T (.storage a index) → s.db.storageRef a index = db.storageRef a index
  | .cachedCode h => T (.codeByHash h) → db.codeByHashRef h = [] ∨ h ∈ s.cache.code.keys
  | _ => True

section Reads

variable {evm : Evm} {spec : ChainSpec} {db : StateDb} {T : Query → Prop}

theorem Fits.perform {s : Connection} (hs : Fits db T s.cache) {act : Act}
    (hfiles : EntriesFit db T act.files) : Fits db T (s.perform evm spec act).2.cache := by
  intro q hq v hv
  rcases of_cached_perform hv with hm | hm
  · exact hfiles _ hm hq
  · exact hs q hq v hm

variable (evm spec db T) in
/-- A program that keeps the caches fitting, as long as its requests are answered alike. -/
def SafeReads {ρ : Type} (post : ρ → Prop) (d : Steps ρ) : Prop :=
  Safe (Connection.perform evm spec) (fun s => Fits db T s.cache) (AnsweredAs db T) post d

theorem SafeReads.ask {ρ : Type} {post : ρ → Prop} {act : Act} {k : act.Answer → Steps ρ}
    (hfiles : EntriesFit db T act.files)
    (hk : ∀ s, Fits db T s.cache → AnsweredAs db T s act →
      SafeReads evm spec db T post (k (s.perform evm spec act).1)) :
    SafeReads evm spec db T post (.ask act k) :=
  fun s hs hanswered => ⟨hs.perform hfiles, hk s hs hanswered⟩

theorem SafeReads.done {ρ : Type} {post : ρ → Prop} {r : ρ} (h : post r) :
    SafeReads evm spec db T post (.done r) := h

theorem SafeReads.bind {ρ τ : Type} {mid : ρ → Prop} {post : τ → Prop} {d : Steps ρ}
    {f : ρ → Steps τ} (hd : SafeReads evm spec db T mid d)
    (hf : ∀ r, mid r → SafeReads evm spec db T post (f r)) :
    SafeReads evm spec db T post (d.bind f) := Safe.bind hd hf

/-- An act that files nothing. -/
theorem entriesFit_nil : EntriesFit db T [] := fun _ h => by cases h

theorem entriesFit_singleton {q : Query} {v : q.Answer} (h : T q → db.view q = .ok v) :
    EntriesFit db T [⟨q, v⟩] := by
  intro e he
  obtain rfl := List.mem_singleton.mp he
  exact h

/-! ## Reading -/

/-- The code an account brings along is the database's. -/
theorem safeReads_fetchCode {a : Address} {info : AccountInfo} (ha : T (.basic a))
    (hinfo : db.getAccount a = .ok (some info)) :
    SafeReads evm spec db T (fun r => r = .ok ()) (Steps.fetchCodeForAddress a info.codeHash) := by
  refine SafeReads.ask entriesFit_nil fun s hs _ => ?_
  cases (s.perform evm spec (.containsCode info.codeHash)).1 with
  | true => exact SafeReads.done rfl
  | false =>
      refine SafeReads.ask entriesFit_nil fun s hs hanswered => ?_
      -- the account's code is asked for, and the server still has the account
      obtain ⟨hacc, hcode⟩ := hanswered ha
      have hr : (s.perform evm spec (.getCode a info.codeHash)).1 = .ok (db.getCode info.codeHash) := by
        simp only [Connection.perform, Act.perform]
        rw [fetch_code (hacc.trans hinfo), hcode]
      rw [hr]
      cases hraw : db.getCode info.codeHash with
      | none => exact SafeReads.done rfl
      | some raw =>
          refine SafeReads.ask (entriesFit_singleton fun _ => ?_) fun _ _ _ => SafeReads.done rfl
          simp only [StateDb.view, StateDb.codeByHashRef, hraw, Option.getD_some]

theorem safeReads_fetchAccount {a : Address} (ha : T (.basic a)) :
    SafeReads evm spec db T (fun r => r = served db (.basic a)) (Steps.fetchAccount a) := by
  refine SafeReads.ask entriesFit_nil fun s hs hanswered => ?_
  have hr : (s.perform evm spec (.getAccount a)).1 = served db (.basic a) := by
    simp only [Connection.perform, Act.perform]
    rw [fetch_account, hanswered ha]
    rfl
  rw [hr]
  simp only [served, StateDb.view, StateDb.basicRef]
  cases hacc : db.getAccount a with
  | error e => exact SafeReads.done rfl
  | ok o =>
      cases o with
      | none => exact SafeReads.done rfl
      | some info =>
          dsimp only [Except.mapError]
          -- code is fetched only for a hash that is not one of empty code
          split
          · refine SafeReads.bind (safeReads_fetchCode ha hacc) fun r hr => ?_
            subst hr
            exact SafeReads.done rfl
          · exact SafeReads.done rfl

theorem safeReads_basicRef {a : Address} (ha : T (.basic a)) :
    SafeReads evm spec db T (fun r => r = served db (.basic a)) (Steps.basicRef a) := by
  refine SafeReads.ask entriesFit_nil fun s hs _ => ?_
  have hr : (s.perform evm spec (.cachedAccount a)).1 = s.cache.cached (.basic a) := by
    simp only [Connection.perform, Act.perform, Lru.get_eq]
    rfl
  rw [hr]
  cases hcached : s.cache.cached (.basic a) with
  -- what is cached is what the database answers
  | some o =>
      refine SafeReads.done ?_
      rw [served, hs _ ha o hcached]
      rfl
  | none =>
      refine SafeReads.bind (safeReads_fetchAccount ha) fun fetched hfetched => ?_
      subst hfetched
      cases hview : db.view (.basic a) with
      | error e =>
          rw [served, hview]
          exact SafeReads.done rfl
      | ok o =>
          rw [served, hview]
          exact SafeReads.ask (entriesFit_singleton fun _ => hview) fun _ _ _ => SafeReads.done rfl

theorem safeReads_storageRef {a : Address} {index : U256} (ha : T (.storage a index)) :
    SafeReads evm spec db T (fun r => r = served db (.storage a index)) (Steps.storageRef a index) := by
  refine SafeReads.ask entriesFit_nil fun s hs _ => ?_
  have hr : (s.perform evm spec (.cachedSlot a index)).1 = s.cache.cached (.storage a index) := by
    simp only [Connection.perform, Act.perform, Lru.get_eq]
    rfl
  rw [hr]
  cases hcached : s.cache.cached (.storage a index) with
  | some value =>
      refine SafeReads.done ?_
      rw [served, hs _ ha value hcached]
      rfl
  | none =>
      -- a slot that is not cached is asked for, and answered by this database
      refine SafeReads.ask entriesFit_nil fun s hs hanswered => ?_
      have hr : (s.perform evm spec (.getStorage a index)).1 = served db (.storage a index) := by
        simp only [Connection.perform, Act.perform]
        rw [fetch_storage, hanswered ha]
        rfl
      rw [hr]
      cases hview : db.view (.storage a index) with
      | error e =>
          rw [served, hview]
          exact SafeReads.done rfl
      | ok value =>
          rw [served, hview]
          exact SafeReads.ask (entriesFit_singleton fun _ => hview) fun _ _ _ => SafeReads.done rfl

theorem safeReads_codeByHashRef {h : B256} (hT : T (.codeByHash h)) :
    SafeReads evm spec db T (fun r => r = served db (.codeByHash h)) (Steps.codeByHashRef h) := by
  refine SafeReads.ask entriesFit_nil fun s hs hheld => ?_
  have hr : (s.perform evm spec (.cachedCode h)).1 = s.cache.cached (.codeByHash h) := by
    simp only [Connection.perform, Act.perform, Lru.get_eq]
    rfl
  rw [hr]
  cases hcached : s.cache.cached (.codeByHash h) with
  | some raw =>
      refine SafeReads.done ?_
      rw [served, hs _ hT raw hcached]
      rfl
  | none =>
      -- code that is not cached is empty, so it has to be for the database too
      have hempty : db.codeByHashRef h = [] := by
        refine (hheld hT).resolve_right fun hkey => ?_
        have hpeek : s.cache.code.peek h = none := hcached
        rw [← Lru.contains_iff, Lru.contains, hpeek] at hkey
        cases hkey
      refine SafeReads.done ?_
      simp only [served, StateDb.view, hempty]
      rfl

/-- **Every read is the database's.** -/
theorem safeReads_read {q : Query} (hq : T q) :
    SafeReads evm spec db T (fun r => r = served db q) (Steps.read q) := by
  cases q with
  | basic a => exact safeReads_basicRef hq
  | storage a index => exact safeReads_storageRef hq
  | codeByHash h => exact safeReads_codeByHashRef hq
  | step i => exact SafeReads.done rfl

end Reads

/-! ## Filing the response -/

section Filing

variable {evm : Evm} {spec : ChainSpec} {db : StateDb} {T : Query → Prop}

theorem cached_put_self (c : RemoteCache) (p : CachePut) :
    (RemoteDb.put c p).cached p.entry.1 = some p.entry.2 := by
  cases p with
  | account a info => exact Lru.peek_put_self ..
  | storage a index value => exact Lru.peek_put_self ..
  | code h raw => exact Lru.peek_put_self ..

/-- What filing a slice leaves of older entries it has nothing for. -/
theorem of_cached_foldl_put {ps : List CachePut} {c : RemoteCache} {q : Query} {v : q.Answer}
    (h : (ps.foldl RemoteDb.put c).cached q = some v) :
    ⟨q, v⟩ ∈ ps.map CachePut.entry
      ∨ c.cached q = some v ∧ ∀ e ∈ ps.map CachePut.entry, e.1 ≠ q := by
  induction ps generalizing c with
  | nil => exact .inr ⟨h, fun _ he => by cases he⟩
  | cons p ps ih =>
      rw [List.map_cons, List.mem_cons]
      rcases ih h with hm | ⟨hput, hne⟩
      · exact .inl (.inr hm)
      · by_cases hq : p.entry.1 = q
        · -- this is the last put of the key
          subst hq
          rw [cached_put_self, Option.some.injEq] at hput
          exact .inl (.inl (by rw [← hput]))
        · rcases of_cached_put hput with hm | hm
          · exact .inl (.inl (List.mem_singleton.mp hm))
          · exact .inr ⟨hm, List.forall_mem_cons.mpr ⟨hq, hne⟩⟩

/-- What a response says is what the database that answered says, and filing it never fails. -/
theorem receive_entries {call : ViewCall} {resp : PrefetchResponse}
    (h : EvmState.prefetch evm db spec call = .ok resp) :
    ∃ (ps : List CachePut) (server : PrefetchResult), resp.entries = ps.map CachePut.entry
      ∧ (∀ e ∈ resp.entries, db.view e.1 = .ok e.2)
      ∧ decodeBytes resp.result = .ok server.result ∧ resp.success = server.success
      ∧ ∀ {γ : Type} (put : γ → CachePut → γ) (c : γ),
          resp.receive put c = (ps.foldl put c, .ok server) := by
  obtain ⟨ps, _, hputs, hps, _, hresult, hsuccess, hreceive⟩ := receive_prefetch h
  have hentries : resp.entries = ps.map CachePut.entry := by
    rw [PrefetchResponse.entries, hputs, List.filterMap_map]
    exact congrFun List.filterMap_eq_map' ps
  refine ⟨ps, _, hentries, fun e he => ?_, hresult, hsuccess, hreceive⟩
  rw [hentries] at he
  obtain ⟨p, hp, rfl⟩ := List.mem_map.mp he
  have hfiled := (hps p).mp hp
  -- what was filed is what the database holds
  cases p with
  | account a info => exact hfiled.2
  | storage a index value => exact hfiled.2
  | code hash raw =>
      obtain ⟨_, _, _, hraw⟩ := hfiled
      simp only [CachePut.entry, StateDb.view, StateDb.codeByHashRef, hraw, Option.getD_some]

/-- What was recorded and is there has an entry. -/
theorem mem_entries_of_filed {call : ViewCall} {resp : PrefetchResponse} {p : CachePut}
    (h : EvmState.prefetch evm db spec call = .ok resp)
    (hp : Filed db (call.accesses
      ((prefetchExecution evm spec db.headOrZero call).asked db.view)) p) :
    p.entry ∈ resp.entries := by
  obtain ⟨_, slice, _, hslice, hresp, _, _⟩ := prefetch_ok h
  rw [PrefetchResponse.entries, hresp]
  exact List.mem_filterMap.mpr ⟨_, mem_puts_of_filed hslice hp, rfl⟩

/-- Filed over caches that fit wherever the response has nothing, it makes them fit. -/
theorem fits_file {call : ViewCall} {resp : PrefetchResponse}
    (h : EvmState.prefetch evm db spec call = .ok resp) {c : RemoteCache}
    (hold : Fits db (fun q => T q ∧ resp.Lacks q) c) :
    Fits db T (resp.receive RemoteDb.put c).1 := by
  obtain ⟨ps, _, hentries, hview, _, _, hreceive⟩ := receive_entries h
  intro q hq v hv
  rw [hreceive] at hv
  rcases of_cached_foldl_put hv with hm | ⟨hm, hne⟩
  · rw [← hentries] at hm
    exact hview _ hm
  · rw [← hentries] at hne
    exact hold q ⟨hq, hne⟩ v hm

end Filing

/-! ## A call on a remote database -/

section Call

variable (evm : Evm) (spec : ChainSpec) (specId : SpecId) (toAddr : Address) (calldata : Bytes)
  (fromAddr : Option Address) (value : Option U256)

/-- A verified call that was prefetched. -/
def prefetchedCall (prefetched : Except ClientError PrefetchResult) : Steps Outcome :=
  Dialogue.bind
    (match prefetched with
    | .ok prefetched =>
        StateClient.resume evm specId .verify toAddr calldata fromAddr value prefetched
    | .error e => .done ([], .error e)) fun result => .done (.call result.1 result.2)

/-- A verified call whose response has come. -/
def answeredCall (response : Except ClientError PrefetchResponse) : Steps Outcome :=
  match response with
  | .ok resp => .ask (.file resp) (prefetchedCall evm specId toAddr calldata fromAddr value)
  | .error e => .done (.call [] (.error e))

theorem program_call :
    (Method.call specId .verify toAddr calldata fromAddr value).program evm
      = .ask (.postPrefetch (prefetchRequest toAddr calldata fromAddr value))
        (answeredCall evm specId toAddr calldata fromAddr value) := by
  simp only [Method.program, StateClient.call, Steps.prefetch, Dialogue.bind]
  congr 1
  funext response
  cases response <;> rfl

/-- The local execution of the call asks for it, on this database. -/
def StateClient.Needs (db : StateDb) (q : Query) : Prop :=
  q ∈ (localExecution evm specId toAddr calldata fromAddr value).asked db.view

/--
No other thread files anything that differs from the database for what the call needs,
and the call's own requests for it are answered as the database would.
-/
def Undisturbed (db : StateDb) (i : Nat) (client : Client) (e : Event Act) : Prop :=
  (∀ act, e = .answer i act →
      AnsweredAs db (StateClient.Needs evm specId toAddr calldata fromAddr value db) client.shared act)
    ∧ ∀ j act, e = .answer j act → j ≠ i →
      EntriesFit db (StateClient.Needs evm specId toAddr calldata fromAddr value db) act.files

/--
A call among the other threads of a client, whatever these have done and whatever is
cached: its prefetch is answered at a database, at some later point its response is
filed, and at some later point it is through.
-/
structure CallRun (db : StateDb) (outcome : Outcome) where
  resp : PrefetchResponse
  response : EvmState.postPrefetch evm db spec (prefetchRequest toAddr calldata fromAddr value)
    = .ok resp
  thread : Nat
  asking : Client
  answered : Client
  filing : Client
  filed : Client
  done : Client
  database : asking.shared.db = db
  starts : asking.threads[thread]?
    = some ((Method.call specId .verify toAddr calldata fromAddr value).program evm)
  answer : ClientStep evm spec (fun s s' => s'.cache = s.cache) asking
    (.answer thread (.postPrefetch (prefetchRequest toAddr calldata fromAddr value))) answered
  waits : ClientRun evm spec (fun s s' => s'.cache = s.cache)
    (fun _ e => ∀ act, e ≠ .answer thread act) answered filing
  /-- What the response has nothing for is not cached, or as the database has it. -/
  fits : Fits db (fun q => StateClient.Needs evm specId toAddr calldata fromAddr value db q ∧ resp.Lacks q)
    filing.shared.cache
  file : ClientStep evm spec (fun s s' => s'.cache = s.cache) filing (.answer thread (.file resp)) filed
  runs : ClientRun evm spec (fun s s' => s'.cache = s.cache)
    (Undisturbed evm specId toAddr calldata fromAddr value db thread) filed done
  ends : done.threads[thread]? = some (.done outcome)

end Call

section Outcome

variable {evm : Evm} {spec : ChainSpec} {specId : SpecId} {toAddr : Address} {calldata : Bytes}
  {fromAddr : Option Address} {value : Option U256} {db : StateDb}

/-- What a call returns that reads the database's answers, with these reads. -/
def databaseOutcome (evm : Evm) (specId : SpecId) (toAddr : Address) (calldata : Bytes)
    (fromAddr : Option Address) (value : Option U256) (db : StateDb) (server : PrefetchResult) :
    Outcome :=
  let e := localExecution evm specId toAddr calldata fromAddr value
  .call (e.transcript (served db)) ((localResult (e.eval (served db))).map (compareRuns server))

/-- **Behind its prefetch** a verified call runs on the database's answers. -/
theorem safeReads_prefetchedCall (server : PrefetchResult) :
    SafeReads evm spec db (StateClient.Needs evm specId toAddr calldata fromAddr value db)
      (fun outcome =>
        outcome = databaseOutcome evm specId toAddr calldata fromAddr value db server)
      (prefetchedCall evm specId toAddr calldata fromAddr value (.ok server)) := by
  let e := localExecution evm specId toAddr calldata fromAddr value
  let T := StateClient.Needs evm specId toAddr calldata fromAddr value db
  have hasked : e.asked (served db) = e.asked db.view :=
    Dialogue.asked_mapError db.view (fun _ => ClientError.server 500) e
  -- each read of the execution comes out as on the database
  have hreads : SafeReads evm spec db T (fun r => r = (e.transcript (served db), e.eval (served db)))
      (e.interp Steps.read []) := by
    refine Safe.interp_eval (fun q hq => safeReads_read ?_) []
    rw [hasked] at hq
    exact hq
  have hlocal : SafeReads evm spec db T
      (fun r => r = (e.transcript (served db), localResult (e.eval (served db))))
      (StateClient.executeLocally evm specId toAddr calldata fromAddr value) := by
    refine hreads.bind fun ran hran => ?_
    subst hran
    exact SafeReads.done rfl
  -- and its result is compared with the server's
  have hresumed : SafeReads evm spec db T
      (fun r => r = (e.transcript (served db),
        (localResult (e.eval (served db))).map (compareRuns server)))
      (StateClient.resume evm specId .verify toAddr calldata fromAddr value server) := by
    refine hlocal.bind fun ran hran => ?_
    subst hran
    exact SafeReads.done rfl
  refine hresumed.bind fun result hresult => ?_
  subst hresult
  exact SafeReads.done rfl

/-- **Where a call ends** that no one disturbs. -/
theorem CallRun.outcome_eq {outcome : Outcome}
    (r : CallRun evm spec specId toAddr calldata fromAddr value db outcome) :
    ∃ bytes, decodeBytes r.resp.result = .ok bytes
      ∧ outcome = databaseOutcome evm specId toAddr calldata fromAddr value db ⟨bytes, r.resp.success⟩ := by
  have hpre := r.response
  rw [postPrefetch, parse_prefetchRequest] at hpre
  obtain ⟨_, server, _, _, hdecode, hsuccess, hreceive⟩ := receive_entries hpre
  refine ⟨server.result, hdecode, ?_⟩
  -- the response, as the thread of the call gets it
  obtain ⟨_, hanswered⟩ := r.answer.answered (r.starts.trans (congrArg some (program_call ..)))
  have hresp : (r.asking.shared.perform evm spec
      (.postPrefetch (prefetchRequest toAddr calldata fromAddr value))).1 = .ok r.resp := by
    simp only [Connection.perform, Act.perform]
    rw [r.database, r.response]
    rfl
  rw [hresp] at hanswered
  have hwaiting := r.waits.waiting hanswered fun _ act h => h act rfl
  -- filing it
  obtain ⟨hshared, hfiled⟩ := r.file.answered hwaiting
  have hresult : (r.filing.shared.perform evm spec (.file r.resp)).1
      = .ok ⟨server.result, r.resp.success⟩ := by
    simp only [Connection.perform, Act.perform, hreceive, hsuccess]
  rw [hresult] at hfiled
  have hfits : Fits db (StateClient.Needs evm specId toAddr calldata fromAddr value db)
      r.filed.shared.cache := by
    rw [hshared]
    exact fits_file hpre r.fits
  -- and the rest of it
  obtain ⟨_, d, hd, hsafe⟩ := r.runs.thread hfits hfiled
    (safeReads_prefetchedCall ⟨server.result, r.resp.success⟩)
    (fun s s' hmove hs => hmove ▸ hs)
    (fun client act hok => hok.1 act rfl)
    (fun client j act hok hj hs => hs.perform (hok.2 j act rfl hj))
  obtain rfl := Option.some.inj (hd.symm.trans r.ends)
  exact hsafe

end Outcome

/-! ## A call in WASM -/

section Wasm

/-- The local execution of the call asks for it, on this database. -/
def WasmCall.Needs (evm : Evm) (args : WasmCall) (db : StateDb) (q : Query) : Prop :=
  ∃ toAddr calldata fromAddr value,
    WasmStateClient.parse args = .ok (toAddr, calldata, fromAddr, value)
      ∧ q ∈ (localExecution evm .CANCUN toAddr calldata fromAddr value).asked db.view

/-- What a cache that is never refilled answers for these reads is what the database does. -/
def WasmFits (db : StateDb) (T : Query → Prop) (c : WasmCache) : Prop :=
  ∀ q, T q → c.view q = served db q

variable {evm : Evm} {spec : ChainSpec} {db : StateDb} {T : Query → Prop}

theorem view_put_self (c : WasmCache) (p : CachePut) :
    (c.put p).view p.entry.1 = .ok p.entry.2 := by
  cases p with
  | account a info => simp [WasmCache.put, CachePut.entry, WasmCache.view, WasmCache.basicRef]
  | storage a index value => simp [WasmCache.put, CachePut.entry, WasmCache.view, WasmCache.storageRef]
  | code h raw => simp [WasmCache.put, CachePut.entry, WasmCache.view, WasmCache.codeByHashRef]

theorem view_put_ne {c : WasmCache} {p : CachePut} {q : Query} (h : p.entry.1 ≠ q) :
    (c.put p).view q = c.view q := by
  cases p with
  | account a info =>
      cases q with
      | basic b =>
          have hne : a ≠ b := fun heq => h (congrArg Query.basic heq)
          simp [WasmCache.put, WasmCache.view, WasmCache.basicRef, Std.ExtTreeMap.getElem?_insert, hne]
      | storage b index => rfl
      | codeByHash hash => rfl
      | step i => rfl
  | storage a index value =>
      cases q with
      | basic b => rfl
      | storage b index' =>
          have hne : (a, index) ≠ (b, index') := fun heq => by cases heq; exact h rfl
          simp [WasmCache.put, WasmCache.view, WasmCache.storageRef, Std.ExtTreeMap.getElem?_insert, hne]
      | codeByHash hash => rfl
      | step i => rfl
  | code hash raw =>
      cases q with
      | basic b =>
          -- the code that comes along is not part of the answer
          simp only [WasmCache.put, WasmCache.view, WasmCache.basicRef]
          cases c.accounts[b]? with
          | none => rfl
          | some o => cases o <;> rfl
      | storage b index => rfl
      | codeByHash hash' =>
          have hne : hash ≠ hash' := fun heq => h (congrArg Query.codeByHash heq)
          simp [WasmCache.put, WasmCache.view, WasmCache.codeByHashRef, Std.ExtTreeMap.getElem?_insert, hne]
      | step i => rfl

/-- An entry that a slice has is read from it, the others as before. -/
theorem view_foldl_put (ps : List CachePut) (c : WasmCache) (q : Query) :
    (∃ v, ⟨q, v⟩ ∈ ps.map CachePut.entry ∧ (ps.foldl WasmCache.put c).view q = .ok v)
      ∨ (∀ e ∈ ps.map CachePut.entry, e.1 ≠ q)
        ∧ (ps.foldl WasmCache.put c).view q = c.view q := by
  induction ps generalizing c with
  | nil => exact .inr ⟨fun _ he => (by cases he), rfl⟩
  | cons p ps ih =>
      rw [List.map_cons, List.foldl_cons]
      rcases ih (c.put p) with ⟨v, hv, hview⟩ | ⟨hne, hview⟩
      · exact .inl ⟨v, List.mem_cons_of_mem _ hv, hview⟩
      · by_cases hq : p.entry.1 = q
        · subst hq
          exact .inl ⟨p.entry.2, List.mem_cons_self, hview.trans (view_put_self c p)⟩
        · exact .inr ⟨List.forall_mem_cons.mpr ⟨hq, hne⟩, hview.trans (view_put_ne hq)⟩

theorem served_eq_ok {q : Query} {v : q.Answer} : served db q = .ok v ↔ db.view q = .ok v := by
  rw [served]
  cases db.view q with
  | error e => simp [Except.mapError]
  | ok w => simp [Except.mapError]

/-- A request that is answered is that of some call. -/
theorem prefetch_of_post {req : PrefetchRequest} {resp : PrefetchResponse}
    (h : postPrefetch evm db spec req = .ok resp) :
    ∃ call, EvmState.prefetch evm db spec call = .ok resp := by
  rw [postPrefetch] at h
  cases hparse : req.parse with
  | error e =>
      rw [hparse] at h
      cases h
  | ok call =>
      rw [hparse] at h
      exact ⟨call, h⟩

/-- Filing a response never fails, and the result that comes with it is read. -/
theorem receive_wasm {call : ViewCall} {resp : PrefetchResponse}
    (h : EvmState.prefetch evm db spec call = .ok resp) :
    ∃ server, ∀ c : WasmCache, c.receive resp = ((c.receive resp).1, .ok server)
      ∧ ∀ q, resp.Lacks q ∧ (c.receive resp).1.view q = c.view q
        ∨ (∃ e ∈ resp.entries, e.1 = q) ∧ (c.receive resp).1.view q = served db q := by
  obtain ⟨ps, server, hentries, hview, _, _, hreceive⟩ := receive_entries h
  refine ⟨server, fun c => ⟨by rw [WasmCache.receive, hreceive], fun q => ?_⟩⟩
  rw [WasmCache.receive, hreceive, PrefetchResponse.Lacks, hentries]
  rcases view_foldl_put ps c q with ⟨v, hv, hq⟩ | hq
  · refine .inr ⟨⟨_, hv, rfl⟩, hq.trans (served_eq_ok.mpr ?_).symm⟩
    rw [← hentries] at hv
    exact hview _ hv
  · exact .inl hq

/-- Filed over a cache that fits wherever the response has nothing, and only then, it makes it fit. -/
theorem wasmFits_receive {call : ViewCall} {resp : PrefetchResponse}
    (h : EvmState.prefetch evm db spec call = .ok resp) {c : WasmCache} :
    WasmFits db T (c.receive resp).1
      ↔ WasmFits db (fun q => T q ∧ resp.Lacks q) c := by
  obtain ⟨_, hreceive⟩ := receive_wasm h
  obtain ⟨_, hview⟩ := hreceive c
  constructor
  · intro hfits q hq
    rcases hview q with ⟨_, heq⟩ | ⟨⟨e, he, heq⟩, _⟩
    · exact heq.symm.trans (hfits q hq.1)
    · exact absurd heq (hq.2 e he)
  · intro hfits q hq
    rcases hview q with ⟨hne, heq⟩ | ⟨_, heq⟩
    · exact heq.trans (hfits q ⟨hq, hne⟩)
    · exact heq

/-- What a call returns that reads the database's answers, with these reads. -/
def databaseWasmResult (evm : Evm) (args : WasmCall) (db : StateDb) (server : PrefetchResult) :
    ReadLog × Except ClientError WasmCallResult :=
  match WasmStateClient.parse args with
  | .error e => ([], .error e)
  | .ok (toAddr, calldata, fromAddr, value) =>
      let e := localExecution evm .CANCUN toAddr calldata fromAddr value
      (e.transcript (served db), (localResult (e.eval (served db))).map fun ran =>
        let result := compareRuns server ran
        ⟨bytesToHex result.output, result.success, result.verified⟩)

section WasmCall

variable {args : WasmCall} {resp : PrefetchResponse} {c : WasmCache} {server : PrefetchResult}

/-- **On a cache that fits** a call runs on the database's answers. -/
theorem wasmCall_eq (hreceive : c.receive resp = ((c.receive resp).1, .ok server))
    (hfits : WasmFits db (args.Needs evm db) (c.receive resp).1) :
    (WasmStateClient.call evm true args resp c).2 = databaseWasmResult evm args db server := by
  rw [WasmStateClient.call, hreceive, databaseWasmResult]
  cases hparse : WasmStateClient.parse args with
  | error e => rfl
  | ok parsed =>
      obtain ⟨toAddr, calldata, fromAddr, value⟩ := parsed
      have hasked := Dialogue.asked_mapError db.view (fun _ => ClientError.server 500)
        (localExecution evm .CANCUN toAddr calldata fromAddr value)
      obtain ⟨htranscript, heval⟩ := Dialogue.transcript_congr fun q hq =>
        hfits q ⟨_, _, _, _, hparse, hasked ▸ hq⟩
      simp only [if_true, WasmStateClient.executeLocally, htranscript, heval]

/-- **The reads of a call** are those of the database exactly on a cache that fits. -/
theorem wasmCall_reads_iff (hreceive : c.receive resp = ((c.receive resp).1, .ok server)) :
    (∀ e ∈ (WasmStateClient.call evm true args resp c).2.1, db.view e.1 = .ok e.2)
      ↔ WasmFits db (args.Needs evm db) (c.receive resp).1 := by
  constructor
  · intro hreads q hq
    obtain ⟨toAddr, calldata, fromAddr, value, hparse, hq⟩ := hq
    rw [WasmStateClient.call, hreceive, hparse] at hreads
    obtain ⟨v, hv, hdb⟩ := Dialogue.agree_of_transcript (fun q => by cases q <;> exact ⟨_, rfl⟩)
      hreads q hq
    exact hv.trans (served_eq_ok.mpr hdb).symm
  · intro hfits
    rw [wasmCall_eq hreceive hfits, databaseWasmResult]
    cases WasmStateClient.parse args with
    | error e => exact fun _ he => by cases he
    | ok parsed => exact fun _ he => served_eq_ok.mp (Dialogue.of_mem_transcript he)

end WasmCall

end Wasm

/-! ## A call alone -/

section Along

variable {evm : Evm} {spec : ChainSpec} {db : StateDb} {T : Query → Prop} {s : Connection}

variable (evm spec db T) in
/-- Each act of a method, on its own on a server that stays, is answered as the database would. -/
def Answered {ρ : Type} (d : Steps ρ) (s : Connection) : Prop :=
  d.Along (Connection.perform evm spec) (fun act s => AnsweredAs db T s act) s

theorem answered_fetchCodeForAddress (hs : s.db = db) (a : Address) (h : B256) :
    Answered evm spec db T (Steps.fetchCodeForAddress a h) s := by
  refine ⟨trivial, ?_⟩
  cases (s.perform evm spec (.containsCode h)).1 with
  | true => trivial
  | false =>
      refine ⟨fun _ => hs ▸ ⟨rfl, rfl⟩, ?_⟩
      dsimp only
      split <;> simp [Dialogue.Along, AnsweredAs]

theorem answered_fetchAccount (hs : s.db = db) (a : Address) :
    Answered evm spec db T (Steps.fetchAccount a) s := by
  refine ⟨fun _ => hs ▸ rfl, ?_⟩
  dsimp only
  split
  · trivial
  · trivial
  · split
    · exact Dialogue.along_bind.mpr ⟨answered_fetchCodeForAddress hs _ _, trivial⟩
    · trivial

/-- A read alone asks for nothing that it would be told otherwise, if it finds the code it asks for. -/
theorem answered_read (hs : s.db = db) {q : Query}
    (hcode : ∀ h, q = .codeByHash h → db.codeByHashRef h = [] ∨ h ∈ s.cache.code.keys) :
    Answered evm spec db T (Steps.read q) s := by
  cases q with
  | step i => trivial
  | codeByHash h => exact ⟨fun _ => hcode h rfl, trivial⟩
  | basic a =>
      refine ⟨trivial, ?_⟩
      dsimp only
      split
      · trivial
      · -- not cached: the account is fetched and filed
        refine Dialogue.along_bind.mpr
          ⟨answered_fetchAccount (s := (s.perform evm spec (.cachedAccount a)).2) hs a, ?_⟩
        split
        · exact ⟨trivial, trivial⟩
        · trivial
  | storage a index =>
      refine ⟨trivial, ?_⟩
      dsimp only
      split
      · trivial
      · refine ⟨fun _ => hs ▸ rfl, ?_⟩
        dsimp only
        split
        · exact ⟨trivial, trivial⟩
        · trivial

/-- **So does a local execution** that finds the code it asks for. -/
theorem answered_interp {e : Execution} (hs : s.db = db) (hheld : CodeHeld db e s.cache)
    (told : ReadLog) : Answered evm spec db T (e.interp Steps.read told) s := by
  induction e generalizing s told with
  | done r => trivial
  | ask q k ih =>
      obtain ⟨hcode, hrest⟩ := hheld
      rw [Dialogue.interp]
      refine Dialogue.along_bind.mpr ⟨answered_read hs hcode, ?_⟩
      rw [play_connection, Steps.play_read, hs]
      cases hread : RemoteDb.read db q s.cache with
      | error e => trivial
      | ok p => exact ih p.1 rfl (hrest _ _ hread) _

end Along

section Alone

variable {evm : Evm} {spec : ChainSpec} {specId : SpecId} {toAddr : Address} {calldata : Bytes}
  {fromAddr : Option Address} {value : Option U256} {db : StateDb} {resp : PrefetchResponse}

/-- Nothing but the thread itself happens then. -/
theorem undisturbed_alone {s : Connection} {act : Act}
    (hact : AnsweredAs db (StateClient.Needs evm specId toAddr calldata fromAddr value db) s act)
    (k : act.Answer → Steps Outcome) :
    Undisturbed evm specId toAddr calldata fromAddr value db 0 ⟨s, [.ask act k]⟩ (.answer 0 act) := by
  constructor
  · intro act' heq
    cases heq
    exact hact
  · intro j act' heq hne
    cases heq
    exact absurd rfl hne

/-- A call that has the client for itself, on any caches that fit, with room for the code it needs. -/
theorem callRun_alone
    (h : EvmState.postPrefetch evm db spec (prefetchRequest toAddr calldata fromAddr value) = .ok resp)
    {c : RemoteCache}
    (hheld : CodeHeld db (localExecution evm specId toAddr calldata fromAddr value)
      (resp.receive RemoteDb.put c).1)
    (hfits : Fits db (fun q => StateClient.Needs evm specId toAddr calldata fromAddr value db q ∧ resp.Lacks q)
      c) :
    ∃ outcome, ∃ r : CallRun evm spec specId toAddr calldata fromAddr value db outcome,
      r.asking.shared = ⟨db, c⟩ := by
  let start : Client := ⟨⟨db, c⟩, [.ask (.postPrefetch (prefetchRequest toAddr calldata fromAddr value))
    (answeredCall evm specId toAddr calldata fromAddr value)]⟩
  let filing : Client := ⟨⟨db, c⟩, [.ask (.file resp)
    (prefetchedCall evm specId toAddr calldata fromAddr value)]⟩
  have hanswer : ClientStep evm spec (fun s s' => s'.cache = s.cache) start
      (.answer 0 (.postPrefetch (prefetchRequest toAddr calldata fromAddr value))) filing := by
    have hresp : (Connection.perform evm spec
        (.postPrefetch (prefetchRequest toAddr calldata fromAddr value)) ⟨db, c⟩).1 = .ok resp := by
      simp only [Connection.perform, Act.perform]
      rw [h]
      rfl
    have hstep : ClientStep evm spec (fun s s' => s'.cache = s.cache) start
      (.answer 0 (.postPrefetch (prefetchRequest toAddr calldata fromAddr value))) _ := .answer rfl
    rw [hresp] at hstep
    exact hstep
  let received := (resp.receive RemoteDb.put c).1
  let rest : Steps Outcome :=
    prefetchedCall evm specId toAddr calldata fromAddr value (resp.receive RemoteDb.put c).2
  let ended := rest.play (Connection.perform evm spec) ⟨db, received⟩
  have hfile : ClientStep evm spec (fun s s' => s'.cache = s.cache) filing (.answer 0 (.file resp))
      ⟨⟨db, received⟩, [rest]⟩ := by
    have hstep : ClientStep evm spec (fun s s' => s'.cache = s.cache) filing
      (.answer 0 (.file resp)) _ := .answer rfl
    exact hstep
  have hanswered : Answered evm spec db
      (StateClient.Needs evm specId toAddr calldata fromAddr value db) rest ⟨db, received⟩ := by
    -- of its parts only the execution asks anything
    have hlocal : Answered evm spec db
        (StateClient.Needs evm specId toAddr calldata fromAddr value db)
        ((localExecution evm specId toAddr calldata fromAddr value).interp Steps.read [])
        ⟨db, received⟩ := answered_interp (s := ⟨db, received⟩) rfl hheld []
    cases hserver : (resp.receive RemoteDb.put c).2 with
    | error e =>
        simp only [rest, hserver]
        trivial
    | ok server =>
        simp only [rest, hserver]
        exact Dialogue.along_bind.mpr
          ⟨Dialogue.along_bind.mpr ⟨Dialogue.along_bind.mpr ⟨hlocal, trivial⟩, trivial⟩, trivial⟩
  have hrun : ClientRun evm spec (fun s s' => s'.cache = s.cache)
      (Undisturbed evm specId toAddr calldata fromAddr value db 0) ⟨⟨db, received⟩, [rest]⟩
      ⟨ended.2, [.done ended.1]⟩ :=
    Run.play (hanswered.imp fun act s hact k => undisturbed_alone hact _) (.refl _)
  exact ⟨_, {
    resp := resp
    response := h
    thread := 0
    asking := start
    answered := filing
    filing := filing
    filed := ⟨⟨db, received⟩, [rest]⟩
    done := ⟨ended.2, [.done ended.1]⟩
    database := rfl
    starts := congrArg some (program_call ..).symm
    answer := hanswer
    waits := .refl _
    fits := hfits
    file := hfile
    runs := hrun
    ends := rfl }, rfl⟩

end Alone

/-! ## Two calls -/

/--
**Calls that no one disturbs.** Two runs of a call on a `RemoteDb`, whatever was cached
before and whatever other threads did, end alike and read what the database said that
answered the prefetch. In WASM a call reads this exactly if it is cached wherever the
response has nothing, and two such calls return the same.
-/
theorem calls_agree (evm : Evm) (spec : ChainSpec) (db : StateDb) :
    (∀ specId toAddr calldata fromAddr value o₁ o₂,
      CallRun evm spec specId toAddr calldata fromAddr value db o₁ →
      CallRun evm spec specId toAddr calldata fromAddr value db o₂ →
      o₁ = o₂
        ∧ ∃ reads result, o₁ = .call reads result ∧ ∀ e ∈ reads, db.view e.1 = .ok e.2)
    ∧ ∀ args resp, postPrefetch evm db spec (WasmStateClient.request args) = .ok resp →
      (∀ c, (∀ e ∈ (WasmStateClient.call evm true args resp c).2.1, db.view e.1 = .ok e.2)
        ↔ WasmFits db (fun q => args.Needs evm db q ∧ resp.Lacks q) c)
      ∧ ∀ c₁ c₂, WasmFits db (fun q => args.Needs evm db q ∧ resp.Lacks q) c₁ →
        WasmFits db (fun q => args.Needs evm db q ∧ resp.Lacks q) c₂ →
        (WasmStateClient.call evm true args resp c₁).2
          = (WasmStateClient.call evm true args resp c₂).2 := by
  constructor
  · intro specId toAddr calldata fromAddr value o₁ o₂ r₁ r₂
    obtain ⟨bytes₁, hbytes₁, heq₁⟩ := r₁.outcome_eq
    obtain ⟨bytes₂, hbytes₂, heq₂⟩ := r₂.outcome_eq
    -- both were answered by the same database
    have hresp : r₁.resp = r₂.resp := Except.ok.inj (r₁.response.symm.trans r₂.response)
    rw [hresp, hbytes₂, Except.ok.injEq] at hbytes₁
    refine ⟨by rw [heq₁, heq₂, hbytes₁, hresp], _, _, heq₁, fun e he => ?_⟩
    exact served_eq_ok.mp (Dialogue.of_mem_transcript he)
  · intro args resp h
    obtain ⟨call, hpre⟩ := prefetch_of_post h
    obtain ⟨server, hreceive⟩ := receive_wasm hpre
    constructor
    · intro c
      rw [wasmCall_reads_iff (hreceive c).1, wasmFits_receive hpre]
    · intro c₁ c₂ hfits₁ hfits₂
      rw [wasmCall_eq (hreceive c₁).1 ((wasmFits_receive hpre).mpr hfits₁),
        wasmCall_eq (hreceive c₂).1 ((wasmFits_receive hpre).mpr hfits₂)]

/-! ## The contract that returns the block number, and one that calls another -/

/-- A call from JavaScript with nothing but the contract. -/
def plainCall (toAddr : Address) : WasmCall := ⟨toAddr.toHex, bytesToHex [], none, none⟩

theorem parse_plainCall (toAddr : Address) :
    WasmStateClient.parse (plainCall toAddr) = .ok (toAddr, [], none, none) := by
  simp only [WasmStateClient.parse, plainCall, Address.parse_toHex, decodeBytes_bytesToHex]
  rfl

theorem request_plainCall (toAddr : Address) :
    WasmStateClient.request (plainCall toAddr) = prefetchRequest toAddr [] none none := rfl

/-- What a call of the contract reads: no account for the caller, its record and its code. -/
theorem needs_number {q : Query}
    (h : StateClient.Needs (.small smallKeccak256) .CANCUN 0xC [] none none numberDb q) :
    (∃ i, q = .step i) ∨ q = .basic 0 ∨ q = .basic 0xC
      ∨ q = .codeByHash (smallKeccak256 numberCode) := by
  have hall : ∀ q ∈ (localExecution (.small smallKeccak256) .CANCUN 0xC [] none none).asked
      numberDb.view, stepsOf [q] ≠ []
        ∨ q ∈ [.basic 0, .basic 0xC, .codeByHash (smallKeccak256 numberCode)] := by
    decide +kernel
  rcases hall q h with hstep | hmem
  · cases q with
    | step i => exact .inl ⟨i, rfl⟩
    | _ => exact absurd rfl hstep
  · simpa using Or.inr hmem

/-- A stale entry for the contract does not matter, as the response has one. -/
theorem calls_agree_number :
    let evm := Evm.small smallKeccak256
    ∃ resp,
      postPrefetch evm numberDb ethereumMainnet (prefetchRequest 0xC [] none none) = .ok resp
      ∧ (∃ o₁ o₂, ∃ r₁ : CallRun evm ethereumMainnet .CANCUN 0xC [] none none numberDb o₁,
          ∃ r₂ : CallRun evm ethereumMainnet .CANCUN 0xC [] none none numberDb o₂,
          r₁.asking.shared.cache = .new 1 (by decide)
            ∧ r₂.asking.shared.cache = put (.new 1 (by decide)) (.account 0xC ⟨7, 0, 0⟩) ∧ o₁ = o₂)
      ∧ (WasmStateClient.call evm true (plainCall 0xC) resp .new).2
        = (WasmStateClient.call evm true (plainCall 0xC) resp
            (WasmCache.new.put (.account 0xC ⟨7, 0, 0⟩))).2 := by
  intro evm
  let fresh : RemoteCache := .new 1 (by decide)
  let stale := put fresh (.account 0xC ⟨7, 0, 0⟩)
  let e := localExecution evm .CANCUN 0xC [] none none
  obtain ⟨resp, hresp⟩ := postPrefetch_number
  have hpre := hresp
  rw [postPrefetch, parse_prefetchRequest] at hpre
  -- the response has the record and the code
  have hinfo : numberDb.getAccount 0xC = .ok (some ⟨1, 0, smallKeccak256 numberCode⟩) := by decide
  have haccount : ⟨.basic 0xC, some ⟨1, 0, smallKeccak256 numberCode⟩⟩ ∈ resp.entries :=
    mem_entries_of_filed (p := .account 0xC _) hpre ⟨has_accesses.mpr (.inl rfl), hinfo⟩
  have hcode : ⟨.codeByHash (smallKeccak256 numberCode), numberCode⟩ ∈ resp.entries :=
    mem_entries_of_filed (p := .code _ numberCode) hpre
      ⟨⟨0xC, _, has_accesses.mpr (.inl rfl), hinfo, rfl⟩, by decide, by decide, by decide⟩
  have hlacks : ∀ {q}, StateClient.Needs evm .CANCUN 0xC [] none none numberDb q → resp.Lacks q →
      (∃ i, q = .step i) ∨ q = .basic 0 := by
    intro q hneeds hlacks
    rcases needs_number hneeds with hstep | rfl | rfl | rfl
    · exact .inl hstep
    · exact .inr rfl
    · exact absurd rfl (hlacks _ haccount)
    · exact absurd rfl (hlacks _ hcode)
  -- and the code is still held when it is needed
  have hheld : (EvmState.prefetch evm numberDb ethereumMainnet ⟨0xC, 0, [], 0⟩).map (fun resp =>
      decide (CodeHeld numberDb e (resp.receive RemoteDb.put fresh).1
        ∧ CodeHeld numberDb e (resp.receive RemoteDb.put stale).1)) = .ok true := by
    decide +kernel
  have hprefetch : EvmState.prefetch evm numberDb ethereumMainnet ⟨0xC, 0, [], 0⟩ = .ok resp := hpre
  rw [hprefetch] at hheld
  obtain ⟨hheld₁, hheld₂⟩ := of_decide_eq_true (Except.ok.inj hheld)
  have hfits : ∀ c ∈ [fresh, stale], Fits numberDb
      (fun q => StateClient.Needs evm .CANCUN 0xC [] none none numberDb q ∧ resp.Lacks q) c := by
    intro c hc q hq v hv
    have hnone : c.cached q = none := by
      rcases hlacks hq.1 hq.2 with ⟨i, rfl⟩ | rfl
      · rfl
      · rcases List.mem_cons.mp hc with rfl | hc
        · decide
        · obtain rfl := List.mem_singleton.mp hc
          decide
    rw [hnone] at hv
    cases hv
  have hwasm : ∀ c ∈ [WasmCache.new, WasmCache.new.put (.account 0xC ⟨7, 0, 0⟩)], WasmFits numberDb
      (fun q => (plainCall 0xC).Needs evm numberDb q ∧ resp.Lacks q) c := by
    intro c hc q hq
    obtain ⟨⟨_, _, _, _, hparse, hneeds⟩, hq⟩ := hq
    rw [parse_plainCall] at hparse
    cases hparse
    rcases hlacks hneeds hq with ⟨i, rfl⟩ | rfl
    · rfl
    · rcases List.mem_cons.mp hc with rfl | hc
      · decide
      · obtain rfl := List.mem_singleton.mp hc
        decide
  obtain ⟨o₁, r₁, h₁⟩ := callRun_alone hresp hheld₁ (hfits _ (by simp))
  obtain ⟨o₂, r₂, h₂⟩ := callRun_alone hresp hheld₂ (hfits _ (by simp))
  obtain ⟨hremote, hlocal⟩ := calls_agree evm ethereumMainnet numberDb
  refine ⟨resp, hresp, ⟨o₁, o₂, r₁, r₂, by rw [h₁], by rw [h₂], ?_⟩, ?_⟩
  · exact (hremote _ _ _ _ _ _ _ r₁ r₂).1
  · exact (hlocal (plainCall 0xC) resp hresp).2 _ _ (hwasm _ (by simp)) (hwasm _ (by simp))

/-- A block whose diffs delete the contract that `forwarderDb` calls on. -/
def deletingBlock : Block where
  header := { number := 1 }
  stateDiffs := [{ address := some 0xD, key := some "balance", kind := some "-", next := none }]

/-- What is left behind it. -/
def deletedDb : StateDb :=
  (replayBlock (.small smallKeccak256) smallKeccak256 .sorted forwarderDb deletingBlock
    ethereumMainnet).db forwarderDb

/-- What such a call does with a response that it can file. -/
theorem call_plainCall {evm : Evm} {toAddr : Address} {resp : PrefetchResponse} {c : WasmCache}
    {server : PrefetchResult} (hreceive : c.receive resp = ((c.receive resp).1, .ok server)) :
    let e := localExecution evm .CANCUN toAddr [] none none
    WasmStateClient.call evm true (plainCall toAddr) resp c
      = ((c.receive resp).1, e.transcript (c.receive resp).1.view,
        (localResult (e.eval (c.receive resp).1.view)).map fun ran =>
          let result := compareRuns server ran
          ⟨bytesToHex result.output, result.success, result.verified⟩) := by
  intro e
  rw [WasmStateClient.call, hreceive, parse_plainCall]
  rfl

/-- The read of a contract with one nonce and a balance of 5. -/
def readsCallee : Entry → Bool
  | ⟨.basic a, some info⟩ => decide (a = 0xD ∧ info = ⟨1, 5, smallKeccak256 oneCode⟩)
  | _ => false

theorem eq_of_readsCallee {e : Entry} (h : readsCallee e = true) :
    e = ⟨.basic 0xD, some ⟨1, 5, smallKeccak256 oneCode⟩⟩ := by
  obtain ⟨q, v⟩ := e
  cases q with
  | basic a =>
      cases v with
      | none => cases h
      | some info =>
          obtain ⟨rfl, rfl⟩ := of_decide_eq_true h
          rfl
  | storage a index => cases h
  | codeByHash hash => cases h
  | step i => cases h

/-- **An account that is gone is still read**: it is in the cache since an earlier call of it. -/
theorem stale_account_is_read :
    let evm := Evm.small smallKeccak256
    ∃ earlier resp,
      postPrefetch evm forwarderDb ethereumMainnet (WasmStateClient.request (plainCall 0xD))
        = .ok earlier
      ∧ postPrefetch evm deletedDb ethereumMainnet (WasmStateClient.request (plainCall 0xC))
        = .ok resp
      ∧ deletedDb.view (.basic 0xD) = .ok none
      ∧ let left := (WasmStateClient.call evm true (plainCall 0xD) earlier .new).1
        ⟨.basic 0xD, some ⟨1, 5, smallKeccak256 oneCode⟩⟩
            ∈ (WasmStateClient.call evm true (plainCall 0xC) resp left).2.1
          ∧ (WasmStateClient.call evm true (plainCall 0xC) resp .new).2.2
            = .ok ⟨bytesToHex (beOf 32 (0 : U256)), true, some true⟩
          ∧ (WasmStateClient.call evm true (plainCall 0xC) resp left).2.2
            = .ok ⟨bytesToHex (beOf 32 (1 : U256)), true, some false⟩ := by
  intro evm
  let e := localExecution evm .CANCUN 0xC [] none none
  let before := prefetch evm forwarderDb ethereumMainnet ⟨0xD, 0, [], 0⟩
  let behind := prefetch evm deletedDb ethereumMainnet ⟨0xC, 0, [], 0⟩
  have hgone : deletedDb.getAccount 0xD = .ok none := by decide
  have hserver : behind.map (fun resp => (WasmCache.new.receive resp).2)
      = .ok (.ok (numberOutcome 0)) := by decide +kernel
  have hfresh : behind.map (fun resp => outcome (e.eval (WasmCache.new.receive resp).1.view))
      = .ok (some (numberOutcome 0)) := by decide +kernel
  -- with the account in the cache the same response leads to another result
  have hstale : before.toOption.bind (fun earlier => behind.toOption.map fun resp =>
      outcome (e.eval ((WasmCache.new.receive earlier).1.receive resp).1.view))
      = some (some (numberOutcome 1)) := by decide +kernel
  have hread : before.toOption.bind (fun earlier => behind.toOption.map fun resp =>
      (e.transcript ((WasmCache.new.receive earlier).1.receive resp).1.view).any readsCallee)
      = some true := by decide +kernel
  have hbefore : ∃ earlier, before = .ok earlier := by
    cases hb : before with
    | error err => rw [hb] at hstale; cases hstale
    | ok earlier => exact ⟨earlier, rfl⟩
  have hbehind : ∃ resp, behind = .ok resp := by
    cases hb : behind with
    | error err => rw [hb] at hserver; cases hserver
    | ok resp => exact ⟨resp, rfl⟩
  obtain ⟨earlier, hearlier⟩ := hbefore
  obtain ⟨resp, hresp⟩ := hbehind
  rw [hearlier, hresp] at hstale hread
  rw [hresp] at hserver hfresh
  simp only [Except.map, Except.ok.injEq, Except.toOption, Option.bind_some, Option.map_some,
    Option.some.injEq] at hserver hfresh hstale hread
  obtain ⟨_, hreceive₀⟩ := receive_wasm hearlier
  obtain ⟨server, hreceive⟩ := receive_wasm hresp
  -- the server, where the account is gone, returned zero
  have hsent : server = numberOutcome 0 := by
    have hsecond := congrArg Prod.snd (hreceive .new).1
    exact Except.ok.inj (hsecond.symm.trans hserver)
  subst hsent
  have hleft : (WasmStateClient.call evm true (plainCall 0xD) earlier .new).1
      = (WasmCache.new.receive earlier).1 := by
    rw [call_plainCall (hreceive₀ .new).1]
  refine ⟨earlier, resp, ?_, ?_, hgone, ?_, ?_, ?_⟩
  · rw [request_plainCall, postPrefetch, parse_prefetchRequest]
    exact hearlier
  · rw [request_plainCall, postPrefetch, parse_prefetchRequest]
    exact hresp
  · rw [hleft, call_plainCall (hreceive _).1]
    obtain ⟨entry, hmem, hentry⟩ := List.any_eq_true.mp hread
    exact eq_of_readsCallee hentry ▸ hmem
  · rw [call_plainCall (hreceive _).1]
    exact congrArg (Except.map _) (localResult_eq_ok.mpr hfresh)
  · rw [hleft, call_plainCall (hreceive _).1]
    exact congrArg (Except.map _) (localResult_eq_ok.mpr hstale)

end EvmState
