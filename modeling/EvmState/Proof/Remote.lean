import EvmState.Client.Remote
import EvmState.Proof.Slice

/-!
# When the remote database answers like the server

Accounts and slots always do: what is not cached is fetched. Code is answered from
its cache alone, so it is right as long as it is still there, and `codeUses` follows
what a run brings into that cache. The reads of a run are those of the server's
database exactly when no code is asked for that was pushed out
(`reads_served_iff`).
-/

namespace EvmState

namespace RemoteDb

/-! ## Fetching -/

section Fetch

variable {α β : Type} {db : StateDb} {a : Address}

/-- What is looked up and printed is fetched; every failure is the server's. -/
theorem fetch_found (r : Except DbError (Option α)) (print : α → β)
    (decode : β → Except ClientError α) (h : ∀ v, decode (print v) = .ok v) :
    fetch ((Api.found r).map print) decode = r.mapError (fun _ => .server 500) := by
  cases r with
  | error e => rfl
  | ok o =>
      cases o with
      | none => rfl
      | some v => simp [Api.found, fetch, Except.map, Except.mapError, h]

theorem fetch_account (db : StateDb) (a : Address) :
    fetch (Api.getAccount db a.toHex) AccountResponse.decode
      = (db.getAccount a).mapError (fun _ => .server 500) := by
  simp only [Api.getAccount, Api.parseAddress_toHex]
  exact fetch_found _ _ _ AccountResponse.decode_ofInfo

theorem fetch_storage (db : StateDb) (a : Address) (index : U256) :
    fetchStorage db a index = (db.storageRef a index).mapError (fun _ => .server 500) := by
  simp only [fetchStorage, Api.getStorage, Api.parseAddress_toHex, Api.parseB256_toHex]
  have := fetch_found (db.getStorage a index) (fun v => StorageResponse.mk v.toHex)
    (fun r => parseU256 r.value) parseU256_toHex
  rw [this, StateDb.storageRef]
  cases db.getStorage a index <;> rfl

theorem fetch_code {info : AccountInfo} (h : db.getAccount a = .ok (some info)) :
    fetch (Api.getCode db a.toHex) (fun r => decodeBytes r.code) = .ok (db.getCode info.codeHash) := by
  simp only [Api.getCode, Api.parseAddress_toHex, h, Api.found]
  cases hc : db.getCode info.codeHash with
  | none => rfl
  | some raw => simp [fetch, Except.map]

/-- Code is only fetched for an account that is there, and is its code. -/
theorem of_fetch_code {raw : Bytes}
    (h : fetch (Api.getCode db a.toHex) (fun r => decodeBytes r.code) = .ok (some raw)) :
    ∃ info, db.getAccount a = .ok (some info) ∧ db.getCode info.codeHash = some raw := by
  cases ha : db.getAccount a with
  | error e => simp [Api.getCode, ha, Api.found, fetch, AppError.status] at h
  | ok o =>
      cases o with
      | none => simp [Api.getCode, ha, Api.found, fetch, AppError.status] at h
      | some info =>
          rw [fetch_code ha, Except.ok.injEq] at h
          exact ⟨info, rfl, h⟩

end Fetch

/-! ## What a call does to the code cache -/

/-- The hash stands for empty code, which no account brings along. -/
def EmptyHash (h : B256) : Prop := h = 0 ∨ h = KECCAK256_EMPTY

instance (h : B256) : Decidable (EmptyHash h) := inferInstanceAs (Decidable (_ ∨ _))

/-- Code that a fetched account brings along: it has some, and it is not cached. -/
def broughtCode (db : StateDb) (code : Lru B256 Bytes) : Option AccountInfo → List (B256 × Bytes)
  | some info =>
      if EmptyHash info.codeHash ∨ code.contains info.codeHash then []
      else ((db.getCode info.codeHash).map fun raw => (info.codeHash, raw)).toList
  | none => []

/-- The code a call files or finds, in order. -/
def codeUses (evm : Evm) (spec : ChainSpec) (db : StateDb) (c : RemoteCache) :
    Call → List (B256 × Bytes)
  | .prefetch toAddr calldata fromAddr value =>
      match postPrefetch evm db spec (prefetchRequest toAddr calldata fromAddr value) with
      | .ok resp => resp.stateSlice.puts.filterMap fun p => p.toOption.bind CachePut.codePart
      | .error _ => []
  | .read (.basic a) =>
      match c.accounts.peek a, db.getAccount a with
      | none, .ok o => broughtCode db c.code o
      | _, _ => []
  | .read (.codeByHash h) => ((c.code.peek h).map fun raw => (h, raw)).toList
  | .read (.storage _ _) => []
  | .read (.step _) => []

/-- The hashes of the code that a run uses. -/
def hashesUsed (evm : Evm) (spec : ChainSpec) (db : StateDb) (c : RemoteCache) :
    List Call → List B256
  | [] => []
  | call :: calls =>
      (codeUses evm spec db c call).map Prod.fst
        ++ hashesUsed evm spec db (step evm spec db c call) calls

theorem fetchAccount_eq (db : StateDb) (a : Address) (c : RemoteCache) :
    fetchAccount db a c = match db.getAccount a with
      | .error _ => .error (.server 500)
      | .ok o => .ok (o, { c with code := c.code.putAll (broughtCode db c.code o) }) := by
  rw [fetchAccount, fetch_account]
  cases ha : db.getAccount a with
  | error e => rfl
  | ok o =>
      cases o with
      | none => rfl
      | some info =>
          simp only [Except.mapError, broughtCode]
          by_cases htriv : EmptyHash info.codeHash
          · rw [if_neg fun h => htriv.elim h.1 h.2, if_pos (.inl htriv)]
            rfl
          · rw [if_pos ⟨fun h => htriv (.inl h), fun h => htriv (.inr h)⟩, fetchCodeForAddress]
            -- code that is cached is not fetched again, nor counted as used
            by_cases hcon : c.code.contains info.codeHash = true
            · rw [if_pos hcon, if_pos (.inr hcon)]
              rfl
            · rw [if_neg hcon, if_neg fun h => h.elim htriv hcon,
                fetch_code ha]
              cases db.getCode info.codeHash <;> rfl

/-! ## Reads, account for account -/

section Reads

variable {db : StateDb} {c : RemoteCache} {a : Address} {index : U256}

/-- An account that is not cached is fetched, with its code. -/
theorem basicRef_eq (db : StateDb) (a : Address) (c : RemoteCache) :
    basicRef db a c = match c.accounts.peek a with
      | some o => .ok (o, { c with accounts := c.accounts.put a o })
      | none => match db.getAccount a with
        | .error _ => .error (.server 500)
        | .ok o => .ok (o, { c with
            accounts := c.accounts.put a o
            code := c.code.putAll (broughtCode db c.code o) }) := by
  rw [basicRef, Lru.get_eq]
  cases c.accounts.peek a with
  | some o => rfl
  | none =>
      simp only [fetchAccount_eq]
      cases db.getAccount a <;> rfl

theorem storageRef_eq (db : StateDb) (a : Address) (index : U256) (c : RemoteCache) :
    storageRef db a index c = match c.storage.peek (a, index) with
      | some v => .ok (v, { c with storage := c.storage.put (a, index) v })
      | none => match db.storageRef a index with
        | .error _ => .error (.server 500)
        | .ok v => .ok (v, { c with storage := c.storage.put (a, index) v }) := by
  rw [storageRef, Lru.get_eq]
  cases c.storage.peek (a, index) with
  | some v => rfl
  | none =>
      simp only [fetch_storage]
      cases db.storageRef a index <;> rfl

theorem codeByHashRef_eq (h : B256) (c : RemoteCache) :
    codeByHashRef h c = ((c.code.peek h).getD [],
      { c with code := c.code.putAll ((c.code.peek h).map fun raw => (h, raw)).toList }) := by
  rw [codeByHashRef, Lru.get_eq]
  cases c.code.peek h <;> rfl

end Reads

/-- A prefetch fails with the caches as they are, or files the server's own state. -/
theorem prefetch_cases (evm : Evm) (spec : ChainSpec) (db : StateDb) (c : RemoteCache)
    (toAddr : Address) (calldata : Bytes) (fromAddr : Option Address) (value : Option U256) :
    let req := prefetchRequest toAddr calldata fromAddr value
    (∃ e, postPrefetch evm db spec req = .error e ∧ (prefetch evm spec db req c).1 = c)
      ∨ ∃ (resp : PrefetchResponse) (ps : List CachePut) (acc : Accesses),
          postPrefetch evm db spec req = .ok resp
          ∧ resp.stateSlice.puts = ps.map .ok ∧ (∀ p, p ∈ ps ↔ Filed db acc p)
          ∧ (prefetch evm spec db req c).1 = ps.foldl put c := by
  intro req
  cases hp : postPrefetch evm db spec req with
  | error e => exact .inl ⟨e, rfl, by rw [prefetch_of_error hp]⟩
  | ok resp =>
      have hpre := hp
      rw [postPrefetch, parse_prefetchRequest] at hpre
      obtain ⟨ps, _, hputs, hps, _, _, _, hreceive⟩ := receive_prefetch hpre
      refine .inr ⟨resp, ps, _, rfl, hputs, hps, ?_⟩
      rw [prefetch_of_ok hp]
      simp only [hreceive]

open CachePut in
theorem foldl_put (ps : List CachePut) (c : RemoteCache) :
    ps.foldl put c
      = { accounts := c.accounts.putAll (ps.filterMap accountPart)
          storage := c.storage.putAll (ps.filterMap storagePart)
          code := c.code.putAll (ps.filterMap codePart) } := by
  induction ps generalizing c with
  | nil => rfl
  | cons p ps ih =>
      rw [List.foldl_cons, ih]
      cases p <;> rfl

/-- The code cache changes by what a call uses. -/
theorem code_step (evm : Evm) (spec : ChainSpec) (db : StateDb) (c : RemoteCache) (call : Call) :
    (step evm spec db c call).code = c.code.putAll (codeUses evm spec db c call) := by
  cases call with
  | prefetch toAddr calldata fromAddr value =>
      rw [step, codeUses]
      rcases prefetch_cases evm spec db c toAddr calldata fromAddr value with
        ⟨e, he, hc⟩ | ⟨resp, ps, acc, hresp, hputs, _, hc⟩
      · rw [he, hc]
        rfl
      · rw [hresp, hc, foldl_put]
        simp only [hputs, List.filterMap_map]
        rfl
  | read q =>
      cases q with
      | basic a =>
          rw [step, read, basicRef_eq, codeUses]
          -- a cached account brings no code, a fetched one its own
          cases c.accounts.peek a with
          | some o => rfl
          | none => cases db.getAccount a <;> rfl
      | storage a index =>
          rw [step, read, storageRef_eq, codeUses]
          cases c.storage.peek (a, index) with
          | some v => rfl
          | none => cases db.storageRef a index <;> rfl
      | codeByHash h => rw [step, read, codeByHashRef_eq, codeUses]
      | step i => rfl

/-! ## The invariant -/

/-- What every call keeps: the caches hold the server's state, and code by recency. -/
structure Tracks (db : StateDb) (c : RemoteCache) (used : List B256) : Prop where
  accounts : ∀ a o, c.accounts.peek a = some o → db.getAccount a = .ok o
  storage : ∀ a index v, c.storage.peek (a, index) = some v → db.storageRef a index = .ok v
  code : ∀ h raw, c.code.peek h = some raw → db.getCode h = some raw
  history : c.code.History used
  brought : ∀ a info raw, c.accounts.peek a = some (some info) → ¬ EmptyHash info.codeHash →
    db.getCode info.codeHash = some raw → info.codeHash ∈ used
  nonempty : ∀ h ∈ used, ¬ EmptyHash h

theorem tracks_new (db : StateDb) (capacity : Nat) (pos : 0 < capacity) :
    Tracks db (.new capacity pos) [] where
  accounts := fun _ _ h => by cases h
  storage := fun _ _ _ h => by cases h
  code := fun _ _ h => by cases h
  history := Lru.history_new capacity pos
  brought := fun _ _ _ h => by cases h
  nonempty := fun _ h => by cases h

section Steps

variable {evm : Evm} {spec : ChainSpec} {db : StateDb} {c : RemoteCache} {used : List B256}

theorem mem_broughtCode {o : Option AccountInfo} {h : B256} {raw : Bytes}
    (hm : (h, raw) ∈ broughtCode db c.code o) : ¬ EmptyHash h ∧ db.getCode h = some raw := by
  unfold broughtCode at hm
  split at hm
  · split at hm
    · cases hm
    · rename_i hcond
      rw [Option.mem_toList, Option.map_eq_some_iff] at hm
      obtain ⟨raw', hraw, heq⟩ := hm
      cases heq
      exact ⟨fun he => hcond (.inl he), hraw⟩
  · cases hm

/-- Code that an account has and that is not brought along is cached. -/
theorem mem_brought_or_cached {info : AccountInfo} {raw : Bytes} (hne : ¬ EmptyHash info.codeHash)
    (hraw : db.getCode info.codeHash = some raw) :
    (info.codeHash, raw) ∈ broughtCode db c.code (some info) ∨ info.codeHash ∈ c.code.keys := by
  by_cases hcon : c.code.contains info.codeHash = true
  · exact .inr (Lru.contains_iff.mp hcon)
  · left
    rw [broughtCode, if_neg fun h => h.elim hne hcon, hraw]
    exact List.mem_singleton_self _

/-- What a call uses of the code cache is the server's code, under a hash of its own. -/
theorem codeUses_served (ht : Tracks db c used) {call : Call} {h : B256} {raw : Bytes}
    (hm : (h, raw) ∈ codeUses evm spec db c call) : ¬ EmptyHash h ∧ db.getCode h = some raw := by
  cases call with
  | prefetch toAddr calldata fromAddr value =>
      rw [codeUses] at hm
      rcases prefetch_cases evm spec db c toAddr calldata fromAddr value with
        ⟨e, he, _⟩ | ⟨resp, ps, acc, hresp, hputs, hps, _⟩
      · rw [he] at hm
        cases hm
      · simp only [hresp, hputs, List.filterMap_map] at hm
        obtain ⟨_, h0, h1, hraw⟩ := (hps _).mp (CachePut.mem_codePart.mp hm)
        exact ⟨fun he => he.elim h0 h1, hraw⟩
  | read q =>
      cases q with
      | basic a =>
          rw [codeUses] at hm
          split at hm
          · exact mem_broughtCode hm
          · cases hm
      | storage a index => cases hm
      | codeByHash h' =>
          rw [codeUses, Option.mem_toList, Option.map_eq_some_iff] at hm
          obtain ⟨raw', hraw, heq⟩ := hm
          cases heq
          -- what is found was used before, and what was used is not empty code
          have hkey : h ∈ c.code.keys := Lru.contains_iff.mp (by rw [Lru.contains, hraw]; rfl)
          exact ⟨ht.nonempty _ (ht.history.mem_keys_iff.mp hkey).1, ht.code _ _ hraw⟩
      | step i => cases hm

/-- A read of an account files what the server has, if nothing is cached. -/
theorem accounts_read_basic {a b : Address} {o : Option AccountInfo}
    (h : (step evm spec db c (.read (.basic b))).accounts.peek a = some o) :
    c.accounts.peek a = some o ∨ a = b ∧ c.accounts.peek b = none ∧ db.getAccount b = .ok o := by
  simp only [step, read, basicRef_eq] at h
  cases hb : c.accounts.peek b with
  | some o' =>
      rw [hb] at h
      -- filing an account only adds its own entry
      rcases Lru.of_peek_put h with heq | h
      · cases heq
        exact .inl hb
      · exact .inl h
  | none =>
      rw [hb] at h
      cases hget : db.getAccount b with
      | error e =>
          rw [hget] at h
          exact .inl h
      | ok o' =>
          rw [hget] at h
          rcases Lru.of_peek_put h with heq | h
          · cases heq
            exact .inr ⟨rfl, rfl, rfl⟩
          · exact .inl h

/-- A read of an account leaves the slots alone. -/
theorem storage_read_basic (b : Address) :
    (step evm spec db c (.read (.basic b))).storage = c.storage := by
  simp only [step, read, basicRef_eq]
  cases c.accounts.peek b with
  | some o => rfl
  | none => cases db.getAccount b <;> rfl

/-- A read of a slot files what the server has, if nothing is cached. -/
theorem storage_read_storage {a b : Address} {index i v : U256}
    (h : (step evm spec db c (.read (.storage b i))).storage.peek (a, index) = some v) :
    c.storage.peek (a, index) = some v ∨ db.storageRef a index = .ok v := by
  simp only [step, read, storageRef_eq] at h
  cases hb : c.storage.peek (b, i) with
  | some w =>
      rw [hb] at h
      rcases Lru.of_peek_put h with heq | h
      · cases heq
        exact .inl hb
      · exact .inl h
  | none =>
      rw [hb] at h
      -- a slot that is not cached is asked for
      cases hw : db.storageRef b i with
      | error e =>
          rw [hw] at h
          exact .inl h
      | ok w =>
          rw [hw] at h
          rcases Lru.of_peek_put h with heq | h
          · cases heq
            exact .inr hw
          · exact .inl h

/-- A read of a slot leaves the accounts alone. -/
theorem accounts_read_storage (b : Address) (index : U256) :
    (step evm spec db c (.read (.storage b index))).accounts = c.accounts := by
  simp only [step, read, storageRef_eq]
  cases c.storage.peek (b, index) with
  | some v => rfl
  | none => cases db.storageRef b index <;> rfl

/-- An account that a call files is the server's, and its code is used. -/
theorem accounts_step (ht : Tracks db c used) {call : Call} {a : Address} {o : Option AccountInfo}
    (h : (step evm spec db c call).accounts.peek a = some o) :
    c.accounts.peek a = some o ∨ db.getAccount a = .ok o
      ∧ ∀ info raw, o = some info → ¬ EmptyHash info.codeHash →
          db.getCode info.codeHash = some raw →
          info.codeHash ∈ used ++ (codeUses evm spec db c call).map Prod.fst := by
  cases call with
  | prefetch toAddr calldata fromAddr value =>
      rw [step] at h
      rcases prefetch_cases evm spec db c toAddr calldata fromAddr value with
        ⟨e, _, hc⟩ | ⟨resp, ps, acc, hresp, hputs, hps, hc⟩
      · exact .inl (hc ▸ h)
      · rw [hc, foldl_put] at h
        rcases Lru.of_peek_putAll h with hm | h
        · obtain ⟨info, rfl, hp⟩ := CachePut.mem_accountPart.mp hm
          -- a slice that names the account has its code as well
          obtain ⟨hhas, hinfo⟩ := (hps _).mp hp
          refine .inr ⟨hinfo, fun info' raw heq hne hraw => ?_⟩
          cases heq
          refine List.mem_append_right _ (List.mem_map.mpr ⟨(info.codeHash, raw), ?_, rfl⟩)
          simp only [codeUses, hresp, hputs, List.filterMap_map]
          exact CachePut.mem_codePart.mpr ((hps (.code info.codeHash raw)).mpr
            ⟨⟨a, info, hhas, hinfo, rfl⟩, fun h => hne (.inl h), fun h => hne (.inr h), hraw⟩)
        · exact .inl h
  | read q =>
      cases q with
      | basic b =>
          rcases accounts_read_basic h with h | ⟨rfl, hmiss, hget⟩
          · exact .inl h
          · refine .inr ⟨hget, fun info raw heq hne hraw => ?_⟩
            subst heq
            simp only [codeUses, hmiss, hget]
            -- either this call brings the code, or it is cached and so was used before
            rcases mem_brought_or_cached hne hraw with hm | hm
            · exact List.mem_append_right _ (List.mem_map.mpr ⟨_, hm, rfl⟩)
            · exact List.mem_append_left _ (ht.history.mem_keys_iff.mp hm).1
      | storage b index =>
          rw [accounts_read_storage] at h
          exact .inl h
      | codeByHash h' =>
          rw [step, read, codeByHashRef_eq] at h
          exact .inl h
      | step i => exact .inl h

/-- A slot that a call files is the server's. -/
theorem storage_step {call : Call} {a : Address} {index v : U256}
    (h : (step evm spec db c call).storage.peek (a, index) = some v) :
    c.storage.peek (a, index) = some v ∨ db.storageRef a index = .ok v := by
  cases call with
  | prefetch toAddr calldata fromAddr value =>
      rw [step] at h
      rcases prefetch_cases evm spec db c toAddr calldata fromAddr value with
        ⟨e, _, hc⟩ | ⟨resp, ps, acc, _, _, hps, hc⟩
      · exact .inl (hc ▸ h)
      · rw [hc, foldl_put] at h
        -- a slot of the response is filed with the database's value
        rcases Lru.of_peek_putAll h with hm | h
        · exact .inr ((hps _).mp (CachePut.mem_storagePart.mp hm)).2
        · exact .inl h
  | read q =>
      cases q with
      | basic b =>
          rw [storage_read_basic] at h
          exact .inl h
      | storage b i => exact storage_read_storage h
      | codeByHash h' =>
          rw [step, read, codeByHashRef_eq] at h
          exact .inl h
      | step i => exact .inl h

/-- **Every call keeps the invariant.** -/
theorem Tracks.step (ht : Tracks db c used) (call : Call) :
    Tracks db (step evm spec db c call) (used ++ (codeUses evm spec db c call).map Prod.fst) where
  accounts := fun a o h => (accounts_step ht h).elim (ht.accounts a o) And.left
  storage := fun a index v h => (storage_step h).elim (ht.storage a index v) id
  code := by
    intro h raw hp
    rw [code_step] at hp
    rcases Lru.of_peek_putAll hp with hm | hp
    · exact (codeUses_served ht hm).2
    · exact ht.code h raw hp
  history := by
    rw [code_step]
    exact ht.history.putAll _
  brought := by
    intro a info raw h hne hraw
    rcases accounts_step ht h with h | ⟨_, hused⟩
    · exact List.mem_append_left _ (ht.brought a info raw h hne hraw)
    · exact hused info raw rfl hne hraw
  nonempty := by
    intro h hm
    rcases List.mem_append.mp hm with hm | hm
    · exact ht.nonempty h hm
    · obtain ⟨e, he, rfl⟩ := List.mem_map.mp hm
      exact (codeUses_served ht he).1

/-- **So does every run.** -/
theorem Tracks.run (ht : Tracks db c used) (calls : List Call) :
    Tracks db (run evm spec db c calls) (used ++ hashesUsed evm spec db c calls) := by
  -- one call adds what it uses; the rest of the run starts from there
  induction calls generalizing c used with
  | nil => simpa [RemoteDb.run, hashesUsed] using ht
  | cons call calls ih =>
      rw [hashesUsed, ← List.append_assoc]
      exact ih (ht.step call)

end Steps

/-! ## When every read is the server's -/

/-- What the server's database answers, its failures as a client sees them. -/
def served (db : StateDb) (q : Query) : Except ClientError q.Answer :=
  (db.view q).mapError fun _ => .server 500

/-- Every read of the run answers what the server's database does. -/
def ReadsServed (evm : Evm) (spec : ChainSpec) (db : StateDb) (c : RemoteCache)
    (calls : List Call) : Prop :=
  ∀ before q after, calls = before ++ .read q :: after →
    (read db q (run evm spec db c before)).map Prod.fst = served db q

/-- Code is asked for by a hash that an account read before it returned. -/
def CodeOfRead (evm : Evm) (spec : ChainSpec) (db : StateDb) (c : RemoteCache)
    (calls : List Call) : Prop :=
  ∀ before h after, calls = before ++ .read (.codeByHash h) :: after →
    ∃ before' a after' info, before = before' ++ .read (.basic a) :: after'
      ∧ (read db (.basic a) (run evm spec db c before')).map Prod.fst = .ok (some info)
      ∧ info.codeHash = h

section Served

variable {evm : Evm} {spec : ChainSpec} {db : StateDb} {c : RemoteCache} {used : List B256}

/-- Reads other than of code are always the server's. -/
theorem read_served (ht : Tracks db c used) {q : Query} (hq : ∀ h, q ≠ .codeByHash h) :
    (read db q c).map Prod.fst = served db q := by
  cases q with
  | basic a =>
      simp only [read, basicRef_eq, served, StateDb.view, StateDb.basicRef]
      cases hc : c.accounts.peek a with
      | some o =>
          rw [ht.accounts a o hc]
          rfl
      | none => cases db.getAccount a <;> rfl
  | storage a index =>
      simp only [read, storageRef_eq, served, StateDb.view]
      cases hc : c.storage.peek (a, index) with
      | some v =>
          rw [ht.storage a index v hc]
          rfl
      | none => cases db.storageRef a index <;> rfl
  | codeByHash h => exact absurd rfl (hq h)
  | step i => rfl

/-- A read of code is the server's if the code is still there or the server has none. -/
theorem read_code_served_iff (ht : Tracks db c used) {h : B256} :
    (read db (.codeByHash h) c).map Prod.fst = served db (.codeByHash h)
      ↔ db.codeByHashRef h = [] ∨ h ∈ c.code.keys := by
  simp only [read, codeByHashRef_eq, served, StateDb.view, Except.map, Except.mapError,
    Except.ok.injEq, StateDb.codeByHashRef]
  rw [← Lru.contains_iff, Lru.contains]
  cases hc : c.code.peek h with
  | some raw => simp [ht.code h raw hc]
  | none => exact ⟨fun h => .inl h.symm, fun h => h.elim Eq.symm fun h => by cases h⟩

variable (evm spec) in
/-- The code of an account that a read returned is used by then. -/
theorem mem_used_of_read (ht : Tracks db c used) {a : Address} {info : AccountInfo} {raw : Bytes}
    (h : (read db (.basic a) c).map Prod.fst = .ok (some info)) (hne : ¬ EmptyHash info.codeHash)
    (hraw : db.getCode info.codeHash = some raw) :
    info.codeHash ∈ used ++ (codeUses evm spec db c (.read (.basic a))).map Prod.fst := by
  have hstep : (step evm spec db c (.read (.basic a))).accounts.peek a = some (some info) := by
    rw [read, basicRef_eq] at h
    rw [step, read, basicRef_eq]
    cases hc : c.accounts.peek a with
    | some o =>
        rw [hc] at h
        cases h
        exact Lru.peek_put_self ..
    | none =>
        rw [hc] at h
        cases ho : db.getAccount a with
        | error e =>
            rw [ho] at h
            cases h
        | ok o =>
            rw [ho] at h
            cases h
            exact Lru.peek_put_self ..
  exact (ht.step _).brought a info raw hstep hne hraw

theorem hashesUsed_append (c : RemoteCache) (xs ys : List Call) :
    hashesUsed evm spec db c (xs ++ ys)
      = hashesUsed evm spec db c xs ++ hashesUsed evm spec db (run evm spec db c xs) ys := by
  induction xs generalizing c with
  | nil => rfl
  | cons call xs ih =>
      rw [List.cons_append, hashesUsed, ih, hashesUsed, List.append_assoc]
      rfl

theorem cap_run (c : RemoteCache) (calls : List Call) :
    (run evm spec db c calls).code.cap = c.code.cap := by
  induction calls generalizing c with
  | nil => rfl
  | cons call calls ih => exact (ih _).trans (by rw [code_step, Lru.cap_putAll])

end Served

/--
**When the remote database answers like the server's own.** A run's reads do exactly
when each hash it asks for has no code at the server, or is none of the two hashes
of empty code and fewer other hashes than the capacity were used since it last was.
-/
theorem reads_served_iff {evm : Evm} {spec : ChainSpec} {db : StateDb} {capacity : Nat}
    (pos : 0 < capacity) {calls : List Call}
    (hcalls : CodeOfRead evm spec db (.new capacity pos) calls) :
    ReadsServed evm spec db (.new capacity pos) calls
      ↔ ∀ before h after, calls = before ++ .read (.codeByHash h) :: after →
          db.codeByHashRef h = [] ∨ ¬ EmptyHash h
            ∧ (Lists.sinceLast (· == h)
                (hashesUsed evm spec db (.new capacity pos) before)).toFinset.card < capacity := by
  have htracks : ∀ before, Tracks db (run evm spec db (.new capacity pos) before)
      (hashesUsed evm spec db (.new capacity pos) before) := fun before => by
    simpa using (tracks_new db capacity pos).run before
  have hcap : ∀ before, (run evm spec db (.new capacity pos) before).code.cap = capacity :=
    fun before => cap_run (.new capacity pos) before
  constructor
  · intro hserved before h after heq
    rcases (read_code_served_iff (htracks before)).mp (hserved before _ after heq) with hnone | hkey
    · exact .inl hnone
    · obtain ⟨hused, hcard⟩ := (htracks before).history.mem_keys_iff.mp hkey
      exact .inr ⟨(htracks before).nonempty h hused, lt_of_lt_of_eq hcard (hcap before)⟩
  · intro hall before q after heq
    -- only reads of code can differ
    by_cases hq : ∃ h, q = .codeByHash h
    · obtain ⟨h, rfl⟩ := hq
      rw [read_code_served_iff (htracks before)]
      cases hraw : db.getCode h with
      | none => exact .inl (by rw [StateDb.codeByHashRef, hraw]; rfl)
      | some raw =>
          refine (hall before h after heq).imp_right fun ⟨hne, hcard⟩ => ?_
          refine (htracks before).history.mem_keys_iff.mpr ⟨?_, lt_of_lt_of_eq hcard (hcap before).symm⟩
          -- the account that gave the hash has brought its code
          obtain ⟨before', a, after', info, rfl, hread, rfl⟩ := hcalls before h after heq
          have hmem := mem_used_of_read evm spec (htracks before') hread hne hraw
          rw [hashesUsed_append, hashesUsed, ← List.append_assoc]
          exact List.mem_append_left _ hmem
    · exact read_served (htracks before) fun h heq => hq ⟨h, heq⟩

/-- Two contracts with code of their own. -/
def twoContractsDb : StateDb :=
  StateDb.empty.commit [.setAccount 0xA ⟨1, 0, 0xC0DE⟩, .setCode 0xC0DE [0x60],
    .setAccount 0xB ⟨1, 0, 0xBEEF⟩, .setCode 0xBEEF [0x61]]

/-- Both are loaded before the code of the first is asked for. -/
def twoContractsCalls : List Call :=
  [.read (.basic 0xA), .read (.basic 0xB), .read (.codeByHash 0xC0DE)]

theorem codeOfRead_twoContracts :
    CodeOfRead (.small smallKeccak256) ethereumMainnet twoContractsDb (.new 1 (by decide))
      twoContractsCalls := by
  intro before h after heq
  have hread : (read twoContractsDb (.basic 0xA) (.new 1 (by decide))).map Prod.fst
      = .ok (some ⟨1, 0, 0xC0DE⟩) := by
    rw [read, basicRef_eq]
    decide
  have hlen : before.length + (after.length + 1) = 3 := by
    have := congrArg List.length heq
    simpa [twoContractsCalls] using this.symm
  match before with
  | [] => simp [twoContractsCalls] at heq
  | [_] => simp [twoContractsCalls] at heq
  | [_, _] =>
      simp only [twoContractsCalls, List.cons_append, List.nil_append, List.cons.injEq,
        Call.read.injEq, Query.codeByHash.injEq] at heq
      obtain ⟨rfl, rfl, rfl, rfl⟩ := heq
      exact ⟨[], 0xA, [.read (.basic 0xB)], ⟨1, 0, 0xC0DE⟩, rfl, hread, rfl⟩
  | _ :: _ :: _ :: before =>
      simp only [List.length_cons] at hlen
      omega

/-- A cache of one code answers the other contract's with none. -/
theorem code_pushed_out :
    let c := run (.small smallKeccak256) ethereumMainnet twoContractsDb (.new 1 (by decide))
      [.read (.basic 0xA), .read (.basic 0xB)]
    CodeOfRead (.small smallKeccak256) ethereumMainnet twoContractsDb (.new 1 (by decide)) twoContractsCalls
      ∧ (codeByHashRef 0xC0DE c).1 = [] ∧ twoContractsDb.codeByHashRef 0xC0DE = [0x60]
      ∧ ¬ ReadsServed (.small smallKeccak256) ethereumMainnet twoContractsDb (.new 1 (by decide))
          twoContractsCalls := by
  intro c
  have hclient : (codeByHashRef 0xC0DE c).1 = [] := by
    simp only [c, run, List.foldl_cons, List.foldl_nil, step, read, basicRef_eq]
    decide
  have hserver : twoContractsDb.codeByHashRef 0xC0DE = [0x60] := by decide
  refine ⟨codeOfRead_twoContracts, hclient, hserver, fun hserved => ?_⟩
  have := hserved [.read (.basic 0xA), .read (.basic 0xB)] (.codeByHash 0xC0DE) [] rfl
  simp only [read, Except.map, served, StateDb.view, Except.mapError, Except.ok.injEq] at this
  exact absurd (hclient.symm.trans (this.trans hserver)) (by decide)

theorem reads_served_iff_twoContracts :
    ReadsServed (.small smallKeccak256) ethereumMainnet twoContractsDb (.new 1 (by decide)) twoContractsCalls
      ↔ ∀ before h after, twoContractsCalls = before ++ .read (.codeByHash h) :: after →
          twoContractsDb.codeByHashRef h = [] ∨ ¬ EmptyHash h
            ∧ (Lists.sinceLast (· == h) (hashesUsed (.small smallKeccak256) ethereumMainnet twoContractsDb
                (.new 1 (by decide)) before)).toFinset.card < 1 :=
  reads_served_iff (by decide) codeOfRead_twoContracts

end RemoteDb

end EvmState
