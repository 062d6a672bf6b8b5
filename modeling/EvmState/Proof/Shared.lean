import EvmState.Proof.CodeCache
import EvmState.Proof.Verify

/-!
# What the threads of a client are told

The server moves on while the threads of a client read, and what one of them filed long
ago answers another. So an answer may be old, but it is never made up: whatever the
threads do and in whatever order, an account or a slot that is cached, returned or read
by a local execution is what the server had for it at one of the databases it went
through, and a prefetch returns what its execution comes to at one of them
(`client_told`). Code is what an account had that had the hash it is filed under, at
another of the databases perhaps.
-/

namespace EvmState

open Threads RemoteDb

/-- The server goes from one of these databases to another. -/
def Connection.Moves (D : StateDb → Prop) (s s' : Connection) : Prop :=
  s'.cache = s.cache ∧ D s'.db

/-- An account had this hash at one of these databases. -/
def HadHash (D : StateDb → Prop) (a : Address) (h : B256) : Prop :=
  ∃ db info, D db ∧ db.getAccount a = .ok (some info) ∧ info.codeHash = h

/-- So it had this code. -/
def HadCode (D : StateDb → Prop) (a : Address) (raw : Bytes) : Prop :=
  ∃ db info, D db ∧ db.getAccount a = .ok (some info) ∧ db.getCode info.codeHash = some raw

/-- One of these databases held the value, for code through an account with the hash. -/
def Held (D : StateDb → Prop) : (q : Query) → q.Answer → Prop
  | .basic a, o => ∃ db, D db ∧ db.getAccount a = .ok o
  | .storage a index, v => ∃ db, D db ∧ db.storageRef a index = .ok v
  | .codeByHash h, raw => ∃ a, HadHash D a h ∧ HadCode D a raw
  | .step _, _ => True

/-- A read came out as one of these databases answers it; code that is not held is empty. -/
def Told (D : StateDb → Prop) : (q : Query) → Except ClientError q.Answer → Prop
  | .basic a, r => ∃ db, D db ∧ r = served db (.basic a)
  | .storage a index, r => ∃ db, D db ∧ r = served db (.storage a index)
  | .codeByHash h, r => ∃ raw, r = .ok raw ∧ (raw = [] ∨ Held D (.codeByHash h) raw)
  | .step _, r => r = .ok ()

/-- What a prefetch comes to at one of these databases: its execution's output, or a refusal. -/
def Prefetched (evm : Evm) (spec : ChainSpec) (D : StateDb → Prop) (toAddr : Address)
    (calldata : Bytes) (fromAddr : Option Address) (value : Option U256) :
    Except ClientError PrefetchResult → Prop
  | .ok server => ∃ db, D db
      ∧ outcome ((serverExecution evm spec db toAddr calldata fromAddr value).eval db.view)
        = some server
  | .error e => ∃ db err, D db
      ∧ postPrefetch evm db spec (prefetchRequest toAddr calldata fromAddr value) = .error err
      ∧ e = .server err.status

/--
What a call makes of its prefetch: that one's failure, or its output, or the output of an
execution of its own, which ran on what its reads were told, compared with that one's.
-/
def Called (evm : Evm) (D : StateDb → Prop) (specId : SpecId) (mode : TrustMode)
    (toAddr : Address) (calldata : Bytes) (fromAddr : Option Address) (value : Option U256)
    (reads : ReadLog) (result : Except ClientError CallResult) :
    Except ClientError PrefetchResult → Prop
  | .error e => reads = [] ∧ result = .error e
  | .ok server =>
      match mode with
      | .trustServer => reads = [] ∧ result = .ok ⟨server.result, server.success, none⟩
      | .verify => ∃ ran, (localExecution evm specId toAddr calldata fromAddr value).Ran
            (EvmState.Told D) reads ran
          ∧ result = (localResult ran).map (compareRuns server)

/-- The outcome of a method, and what it was told for it. -/
def Method.Told (evm : Evm) (spec : ChainSpec) (D : StateDb → Prop) : Method → Outcome → Prop
  | .read q, outcome => ∃ result, outcome = .read q result ∧ EvmState.Told D q result
  | .prefetch toAddr calldata fromAddr value, outcome =>
      ∃ result, outcome = .prefetch result
        ∧ Prefetched evm spec D toAddr calldata fromAddr value result
  | .call specId mode toAddr calldata fromAddr value, outcome =>
      ∃ reads result prefetched, outcome = .call reads result
        ∧ Prefetched evm spec D toAddr calldata fromAddr value prefetched
        ∧ Called evm D specId mode toAddr calldata fromAddr value reads result prefetched

section Held

variable {evm : Evm} {spec : ChainSpec} {D : StateDb → Prop}

/-- What is kept: the server is at one of the databases, and everything cached was held. -/
structure Genuine (D : StateDb → Prop) (s : Connection) : Prop where
  db : D s.db
  cache : ∀ q v, s.cache.cached q = some v → Held D q v

theorem Genuine.perform {s : Connection} (hs : Genuine D s) {act : Act}
    (hfiles : ∀ e ∈ act.files, Held D e.1 e.2) : Genuine D (s.perform evm spec act).2 := by
  refine ⟨hs.db, fun q v hv => ?_⟩
  rcases of_cached_perform hv with hm | hm
  · exact hfiles _ hm
  · exact hs.cache q v hm

variable (evm spec D) in
/-- A program that files nothing but what was held. -/
def SafeHeld {ρ : Type} (post : ρ → Prop) (d : Steps ρ) : Prop :=
  Safe (Connection.perform evm spec) (Genuine D) (fun _ _ => True) post d

theorem SafeHeld.ask {ρ : Type} {post : ρ → Prop} {act : Act} {k : act.Answer → Steps ρ}
    (hfiles : ∀ e ∈ act.files, Held D e.1 e.2)
    (hk : ∀ s, Genuine D s → SafeHeld evm spec D post (k (s.perform evm spec act).1)) :
    SafeHeld evm spec D post (.ask act k) :=
  fun s hs _ => ⟨hs.perform hfiles, hk s hs⟩

theorem SafeHeld.done {ρ : Type} {post : ρ → Prop} {r : ρ} (h : post r) :
    SafeHeld evm spec D post (.done r) := h

theorem SafeHeld.bind {ρ τ : Type} {mid : ρ → Prop} {post : τ → Prop} {d : Steps ρ}
    {f : ρ → Steps τ} (hd : SafeHeld evm spec D mid d)
    (hf : ∀ r, mid r → SafeHeld evm spec D post (f r)) :
    SafeHeld evm spec D post (d.bind f) := Safe.bind hd hf

theorem held_nil : ∀ e ∈ ([] : List Entry), Held D e.1 e.2 := fun _ h => by cases h

theorem held_singleton {q : Query} {v : q.Answer} (h : Held D q v) :
    ∀ e ∈ [(⟨q, v⟩ : Entry)], Held D e.1 e.2 := by
  intro e he
  obtain rfl := List.mem_singleton.mp he
  exact h

/-! ## Reads -/

/-- Code is asked for by the account, and fails only where the account does. -/
theorem safeHeld_fetchCode {a : Address} {h : B256} (ha : HadHash D a h) :
    SafeHeld evm spec D (fun r => ∀ e, r = .error e → Told D (.basic a) (.error e))
      (Steps.fetchCodeForAddress a h) := by
  refine SafeHeld.ask held_nil fun s hs => ?_
  cases (s.perform evm spec (.containsCode h)).1 with
  | true => exact SafeHeld.done fun _ he => by cases he
  | false =>
      refine SafeHeld.ask held_nil fun s hs => ?_
      cases hr : (s.perform evm spec (.getCode a h)).1 with
      | error e =>
          simp only [Connection.perform, Act.perform] at hr
          refine SafeHeld.done fun e' he' => ⟨s.db, hs.db, ?_⟩
          cases he'
          cases hacc : s.db.getAccount a with
          -- the request fails where the account does not decode
          | error err =>
              simp only [Api.getCode, Api.parseAddress_toHex, hacc] at hr
              cases hr
              simp only [served, StateDb.view, StateDb.basicRef, hacc]
              rfl
          | ok o =>
              cases o with
              | none =>
                  simp only [Api.getCode, Api.parseAddress_toHex, hacc] at hr
                  cases hr
              | some info =>
                  rw [fetch_code hacc] at hr
                  cases hr
      | ok o =>
          cases o with
          | none => exact SafeHeld.done fun _ he => by cases he
          | some raw =>
              simp only [Connection.perform, Act.perform] at hr
              obtain ⟨info, hinfo, hraw⟩ := of_fetch_code hr
              -- the account had the hash when it was fetched, and has this code now
              have hheld : Held D (.codeByHash h) raw :=
                ⟨a, ha, s.db, info, hs.db, hinfo, hraw⟩
              exact SafeHeld.ask (held_singleton hheld) fun _ _ => SafeHeld.done fun _ he => by cases he

theorem safeHeld_fetchAccount (a : Address) :
    SafeHeld evm spec D (Told D (.basic a)) (Steps.fetchAccount a) := by
  refine SafeHeld.ask held_nil fun s hs => ?_
  have hr : (s.perform evm spec (.getAccount a)).1 = served s.db (.basic a) := by
    simp only [Connection.perform, Act.perform, fetch_account]
    rfl
  rw [hr]
  cases hacc : s.db.getAccount a with
  | error e =>
      have hserved : served s.db (.basic a) = .error (.server 500) := by
        simp only [served, StateDb.view, StateDb.basicRef, hacc, Except.mapError]
      rw [hserved]
      exact SafeHeld.done ⟨s.db, hs.db, hserved.symm⟩
  | ok o =>
      have hserved : served s.db (.basic a) = .ok o := by
        simp only [served, StateDb.view, StateDb.basicRef, hacc, Except.mapError]
      have htold : Told D (.basic a) (.ok o) := ⟨s.db, hs.db, hserved.symm⟩
      rw [hserved]
      cases o with
      | none => exact SafeHeld.done htold
      | some info =>
          dsimp only
          -- the code that comes with it says nothing about what the read is told
          split
          · refine SafeHeld.bind (safeHeld_fetchCode ⟨s.db, info, hs.db, hacc, rfl⟩) fun r hr => ?_
            cases r with
            | ok u => exact SafeHeld.done htold
            | error e => exact SafeHeld.done (hr e rfl)
          · exact SafeHeld.done htold

/-- What is told of an account that is not an error was held. -/
theorem held_of_told {a : Address} {o : Option AccountInfo} (h : Told D (.basic a) (.ok o)) :
    Held D (.basic a) o := by
  obtain ⟨db, hdb, ho⟩ := h
  refine ⟨db, hdb, ?_⟩
  cases hacc : db.getAccount a with
  | error e =>
      simp only [served, StateDb.view, StateDb.basicRef, hacc] at ho
      cases ho
  | ok o' =>
      simp only [served, StateDb.view, StateDb.basicRef, hacc] at ho
      cases ho
      rfl

theorem told_of_held {a : Address} {o : Option AccountInfo} (h : Held D (.basic a) o) :
    Told D (.basic a) (.ok o) := by
  obtain ⟨db, hdb, ho⟩ := h
  refine ⟨db, hdb, ?_⟩
  simp only [served, StateDb.view, StateDb.basicRef, ho]
  rfl

theorem safeHeld_basicRef (a : Address) :
    SafeHeld evm spec D (Told D (.basic a)) (Steps.basicRef a) := by
  refine SafeHeld.ask held_nil fun s hs => ?_
  have hr : (s.perform evm spec (.cachedAccount a)).1 = s.cache.cached (.basic a) := by
    simp only [Connection.perform, Act.perform, Lru.get_eq]
    rfl
  rw [hr]
  cases hcached : s.cache.cached (.basic a) with
  -- what is cached was held by one of the databases
  | some o => exact SafeHeld.done (told_of_held (hs.cache _ o hcached))
  | none =>
      refine SafeHeld.bind (safeHeld_fetchAccount a) fun fetched hfetched => ?_
      cases fetched with
      | error e => exact SafeHeld.done hfetched
      | ok o =>
          have hheld : Held D (.basic a) o := held_of_told hfetched
          exact SafeHeld.ask (held_singleton hheld) fun _ _ => SafeHeld.done hfetched

theorem safeHeld_storageRef (a : Address) (index : U256) :
    SafeHeld evm spec D (Told D (.storage a index)) (Steps.storageRef a index) := by
  refine SafeHeld.ask held_nil fun s hs => ?_
  have hr : (s.perform evm spec (.cachedSlot a index)).1 = s.cache.cached (.storage a index) := by
    simp only [Connection.perform, Act.perform, Lru.get_eq]
    rfl
  rw [hr]
  cases hcached : s.cache.cached (.storage a index) with
  | some value =>
      obtain ⟨db, hdb, hvalue⟩ := hs.cache _ value hcached
      refine SafeHeld.done ⟨db, hdb, ?_⟩
      simp only [served, StateDb.view, hvalue]
      rfl
  | none =>
      refine SafeHeld.ask held_nil fun s hs => ?_
      -- the slot is read where the server is at that moment
      have hr : (s.perform evm spec (.getStorage a index)).1 = served s.db (.storage a index) := by
        simp only [Connection.perform, Act.perform, fetch_storage]
        rfl
      rw [hr]
      cases hvalue : s.db.storageRef a index with
      | error e =>
          have hserved : served s.db (.storage a index) = .error (.server 500) := by
            simp only [served, StateDb.view, hvalue, Except.mapError]
          rw [hserved]
          exact SafeHeld.done ⟨s.db, hs.db, hserved.symm⟩
      | ok value =>
          have hserved : served s.db (.storage a index) = .ok value := by
            simp only [served, StateDb.view, hvalue, Except.mapError]
          have hheld : Held D (.storage a index) value := ⟨s.db, hs.db, hvalue⟩
          rw [hserved]
          exact SafeHeld.ask (held_singleton hheld) fun _ _ =>
            SafeHeld.done ⟨s.db, hs.db, hserved.symm⟩

theorem safeHeld_codeByHashRef (h : B256) :
    SafeHeld evm spec D (Told D (.codeByHash h)) (Steps.codeByHashRef h) := by
  refine SafeHeld.ask held_nil fun s hs => ?_
  have hr : (s.perform evm spec (.cachedCode h)).1 = s.cache.cached (.codeByHash h) := by
    simp only [Connection.perform, Act.perform, Lru.get_eq]
    rfl
  rw [hr]
  cases hcached : s.cache.cached (.codeByHash h) with
  | some raw => exact SafeHeld.done ⟨raw, rfl, .inr (hs.cache _ raw hcached)⟩
  | none => exact SafeHeld.done ⟨[], rfl, .inl rfl⟩

theorem safeHeld_read (q : Query) : SafeHeld evm spec D (Told D q) (Steps.read q) := by
  cases q with
  | basic a => exact safeHeld_basicRef a
  | storage a index => exact safeHeld_storageRef a index
  | codeByHash h => exact safeHeld_codeByHashRef h
  | step i => exact SafeHeld.done rfl

/-! ## Methods -/

/-- A slice holds the state of the database that answers. -/
theorem held_entries {db : StateDb} (hdb : D db) {req : PrefetchRequest} {resp : PrefetchResponse}
    (h : postPrefetch evm db spec req = .ok resp) : ∀ e ∈ resp.entries, Held D e.1 e.2 := by
  intro e he
  unfold postPrefetch at h
  split at h
  · cases h
  · obtain ⟨_, slice, _, hslice, hresp, _, _⟩ := prefetch_ok h
    obtain ⟨put, hput, hentry⟩ := List.mem_filterMap.mp he
    rw [hresp] at hput
    obtain ⟨p, rfl, hp⟩ := filed_of_mem_puts hslice hput
    -- what the response has is what the answering database has
    cases p with
    | account a info =>
        cases hentry
        exact ⟨db, hdb, hp.2⟩
    | storage a index value =>
        cases hentry
        exact ⟨db, hdb, hp.2⟩
    | code hash raw =>
        cases hentry
        obtain ⟨⟨a, info, _, hinfo, hhash⟩, _, _, hraw⟩ := hp
        exact ⟨a, ⟨db, info, hdb, hinfo, hhash⟩, db, info, hdb, hinfo, hhash ▸ hraw⟩

theorem safeHeld_prefetch (toAddr : Address) (calldata : Bytes) (fromAddr : Option Address)
    (value : Option U256) :
    SafeHeld evm spec D (Prefetched evm spec D toAddr calldata fromAddr value)
      (Steps.prefetch (prefetchRequest toAddr calldata fromAddr value)) := by
  refine SafeHeld.ask held_nil fun s hs => ?_
  have hanswer : (s.perform evm spec
      (.postPrefetch (prefetchRequest toAddr calldata fromAddr value))).1
      = (postPrefetch evm s.db spec (prefetchRequest toAddr calldata fromAddr value)).mapError
        (fun e => .server e.status) := rfl
  rw [hanswer]
  cases hp : postPrefetch evm s.db spec (prefetchRequest toAddr calldata fromAddr value) with
  | error e => exact SafeHeld.done ⟨s.db, e, hs.db, hp, rfl⟩
  | ok resp =>
      obtain ⟨server, houtcome, _, _, hreceive⟩ := prefetch_result hp
      refine SafeHeld.ask (held_entries hs.db hp) fun s' _ => ?_
      -- what is made of the response does not depend on the caches it is filed in
      have hfiled : (s'.perform evm spec (.file resp)).1 = .ok server := by
        have hcache := hreceive s'.cache
        rw [RemoteDb.prefetch_of_ok hp] at hcache
        exact hcache
      rw [hfiled]
      exact SafeHeld.done ⟨s.db, hs.db, houtcome⟩

/-- A local execution runs on what its reads are told. -/
theorem safeHeld_executeLocally (specId : SpecId) (toAddr : Address) (calldata : Bytes)
    (fromAddr : Option Address) (value : Option U256) :
    SafeHeld evm spec D
      (fun r => ∃ ran, (localExecution evm specId toAddr calldata fromAddr value).Ran (Told D) r.1 ran
        ∧ r.2 = localResult ran)
      (StateClient.executeLocally evm specId toAddr calldata fromAddr value) := by
  refine SafeHeld.bind (Safe.interp_ran safeHeld_read _ []) fun ran hran => ?_
  obtain ⟨rest, hrest, hran⟩ := hran
  rw [List.nil_append] at hrest
  exact SafeHeld.done ⟨ran.2, hrest ▸ hran, rfl⟩

theorem safeHeld_resume (specId : SpecId) (mode : TrustMode) (toAddr : Address) (calldata : Bytes)
    (fromAddr : Option Address) (value : Option U256) (server : PrefetchResult) :
    SafeHeld evm spec D
      (fun r => Called evm D specId mode toAddr calldata fromAddr value r.1 r.2 (.ok server))
      (StateClient.resume evm specId mode toAddr calldata fromAddr value server) := by
  cases mode with
  | trustServer => exact SafeHeld.done ⟨rfl, rfl⟩
  | verify =>
      refine SafeHeld.bind (safeHeld_executeLocally specId toAddr calldata fromAddr value) ?_
      rintro r ⟨ran, hran, hresult⟩
      exact SafeHeld.done ⟨ran, hran, by rw [hresult]⟩

/-- **Every method is safe**, and its outcome is what it was told. -/
theorem safeHeld_program (m : Method) :
    SafeHeld evm spec D (m.Told evm spec D) (m.program evm) := by
  cases m with
  | read q => exact SafeHeld.bind (safeHeld_read q) fun r h => SafeHeld.done ⟨r, rfl, h⟩
  | prefetch toAddr calldata fromAddr value =>
      exact SafeHeld.bind (safeHeld_prefetch toAddr calldata fromAddr value) fun r h =>
        SafeHeld.done ⟨r, rfl, h⟩
  | call specId mode toAddr calldata fromAddr value =>
      have hcall : SafeHeld evm spec D
          (fun r => ∃ prefetched, Prefetched evm spec D toAddr calldata fromAddr value prefetched
            ∧ Called evm D specId mode toAddr calldata fromAddr value r.1 r.2 prefetched)
          (StateClient.call evm specId mode toAddr calldata fromAddr value) := by
        refine SafeHeld.bind (safeHeld_prefetch toAddr calldata fromAddr value) fun prefetched h => ?_
        -- a failed prefetch is what the call returns
        cases prefetched with
        | error e => exact SafeHeld.done ⟨.error e, h, rfl, rfl⟩
        | ok server =>
            exact (safeHeld_resume specId mode toAddr calldata fromAddr value server).imp
              fun r hr => ⟨.ok server, h, hr⟩
      refine SafeHeld.bind hcall ?_
      rintro r ⟨prefetched, hprefetched, hcalled⟩
      exact SafeHeld.done ⟨r.1, r.2, prefetched, rfl, hprefetched, hcalled⟩

end Held

/--
**Nothing is made up.** A new client of a server that goes from one database to another,
with threads for any methods, and others that start on the way: however these and the
server interleave, everything that its caches hold was held by one of these databases, and
the outcome of each thread that is through is what its method was told.
-/
theorem client_told {evm : Evm} {spec : ChainSpec} {D : StateDb → Prop} {capacity : Nat}
    (pos : 0 < capacity) {db : StateDb} (hdb : D db) (methods : List Method) {client : Client}
    (hrun : ClientRun evm spec (Connection.Moves D) (fun _ _ => True)
      ⟨⟨db, .new capacity pos⟩, methods.map (Method.program evm)⟩ client) :
    (∀ q v, client.shared.cache.cached q = some v → Held D q v)
      ∧ ∀ (i : Nat) (outcome : Outcome), client.threads[i]? = some (.done outcome) →
          (∃ m : Method, m.Told evm spec D outcome)
            ∧ ∀ m : Method, methods[i]? = some m → m.Told evm spec D outcome := by
  have hstart : Genuine D ⟨db, .new capacity pos⟩ := by
    refine ⟨hdb, fun q v h => ?_⟩
    cases q <;> cases h
  let post : Nat → Outcome → Prop := fun i outcome =>
    (∃ m : Method, m.Told evm spec D outcome)
      ∧ ∀ m : Method, methods[i]? = some m → m.Told evm spec D outcome
  -- a thread that is there from the start has its own method, the others have some method
  have hthreads : ∀ i d, (methods.map (Method.program evm))[i]? = some d →
      SafeHeld evm spec D (post i) d := by
    intro i d hi
    rw [List.getElem?_map] at hi
    obtain ⟨m, hm, rfl⟩ := Option.map_eq_some_iff.mp hi
    refine (safeHeld_program m).imp fun outcome h => ⟨⟨m, h⟩, fun m' hm' => ?_⟩
    rwa [← Option.some.inj (hm.symm.trans hm')]
  have hstarts : ∀ d : Steps Outcome, (∃ m : Method, d = m.program evm) →
      ∀ i, (methods.map (Method.program evm)).length ≤ i → SafeHeld evm spec D (post i) d := by
    rintro d ⟨m, rfl⟩ i hi
    refine (safeHeld_program m).imp fun outcome h => ⟨⟨m, h⟩, fun m' hm' => ?_⟩
    rw [List.length_map] at hi
    rw [List.getElem?_eq_none hi] at hm'
    cases hm'
  obtain ⟨hgenuine, _, hsafe⟩ := hrun.each hstart hthreads
    (fun s s' hmove hs => ⟨hmove.2, hmove.1 ▸ hs.cache⟩) hstarts (fun _ _ _ _ => trivial)
  exact ⟨hgenuine.cache, fun i outcome hi => hsafe i _ hi⟩

/-- A contract before and after the block that gives it other code. -/
def RecodedDb (db : StateDb) : Prop := db = codedDb ∨ db = (codedReplay recodingBlock).db codedDb

/-- The zero byte under the hash of `abc` is not made up: the contract had the one and then the other. -/
theorem client_told_recoded : ∃ client : Client,
    client.shared.cache.cached (.codeByHash (zeroAbcKeccak256 [0x61, 0x62, 0x63])) = some [0]
      ∧ (∀ q v, client.shared.cache.cached q = some v → Held RecodedDb q v)
      ∧ ∀ (i : Nat) (outcome : Outcome), client.threads[i]? = some (.done outcome) →
          ∃ m : Method, m.Told (.counting zeroAbcKeccak256) ethereumMainnet RecodedDb outcome := by
  have hbefore : codedDb.getAccount 0xC = .ok (some ⟨0, 0, zeroAbcKeccak256 [0x61, 0x62, 0x63]⟩) := by
    decide
  have hafter : ((codedReplay recodingBlock).db codedDb).getAccount 0xC
      = .ok (some ⟨0, 0, zeroAbcKeccak256 [0]⟩) := by decide
  have hcode : ((codedReplay recodingBlock).db codedDb).getCode (zeroAbcKeccak256 [0]) = some [0] := by
    decide
  -- the server replays the block between two requests of one read
  have hmove : ∀ c, Connection.Moves RecodedDb ⟨codedDb, c⟩ ⟨(codedReplay recodingBlock).db codedDb, c⟩ :=
    fun _ => ⟨rfl, .inr rfl⟩
  obtain ⟨client, hrun, hcached⟩ : ∃ client, ClientRun (.counting zeroAbcKeccak256) ethereumMainnet
      (Connection.Moves RecodedDb) (fun _ _ => True) ⟨⟨codedDb, .new 1 (by decide)⟩, []⟩ client
      ∧ client.shared.cache.code.peek (zeroAbcKeccak256 [0x61, 0x62, 0x63]) = some [0] :=
    basicRef_overtaken (by decide) hbefore (by decide) hafter hcode
      (hmove (.new 1 (by decide))) (fun _ _ _ => trivial) (fun _ _ => trivial)
  obtain ⟨hheld, htold⟩ := client_told (by decide) (.inl rfl) [] hrun
  exact ⟨client, hcached, hheld, fun i outcome hi => (htold i outcome hi).1⟩

end EvmState
