import EvmState.Client.Steps
import EvmState.Proof.Remote
import EvmState.Proof.StateDb

/-!
# What a client asks the server for

Of what a `RemoteDb` does only the requests leave the client. Accounts and slots are asked
for exactly when they are not among the last that were used, as many as there is room for
(`reads_ask_iff`): what a run has used of a cache, in order, is known, and so is what is
still there (`Lru.History`). In a run that does not use more than there is room for nothing
is asked for twice (`nothing_twice`).
-/

namespace EvmState

/-- Whether an act is a request, and no work on the caches. -/
def Act.isRequest : Act → Bool
  | .getAccount _ | .getCode _ _ | .getStorage _ _ | .postPrefetch _ => true
  | _ => false

/-- The account a request asks for. -/
def Act.account : Act → Option Address
  | .getAccount a => some a
  | _ => none

/-- The slot a request asks for. -/
def Act.slot : Act → Option (Address × U256)
  | .getStorage a index => some (a, index)
  | _ => none

namespace RemoteDb

variable (evm : Evm) (spec : ChainSpec) (db : StateDb)

/-- The requests of a call, in order. -/
def requests (c : RemoteCache) : Call → List Act
  | .prefetch toAddr calldata fromAddr value =>
      ((Steps.prefetch (prefetchRequest toAddr calldata fromAddr value)).trace
        (Act.perform evm spec db) c).filter Act.isRequest
  | .read q => ((Steps.read q).trace (Act.perform evm spec db) c).filter Act.isRequest

/-- The requests of a run. -/
def runRequests (c : RemoteCache) : List Call → List Act
  | [] => []
  | call :: calls => requests evm spec db c call ++ runRequests (step evm spec db c call) calls

/-- The accounts a call files or finds, in order. -/
def accountUses (c : RemoteCache) : Call → List (Address × Option AccountInfo)
  | .prefetch toAddr calldata fromAddr value =>
      match postPrefetch evm db spec (prefetchRequest toAddr calldata fromAddr value) with
      | .ok resp => resp.stateSlice.puts.filterMap fun p => p.toOption.bind CachePut.accountPart
      | .error _ => []
  | .read (.basic a) => ((basicRef db a c).toOption.map fun r => (a, r.1)).toList
  | .read _ => []

/-- The slots a call files or finds, in order. -/
def slotUses (c : RemoteCache) : Call → List ((Address × U256) × U256)
  | .prefetch toAddr calldata fromAddr value =>
      match postPrefetch evm db spec (prefetchRequest toAddr calldata fromAddr value) with
      | .ok resp => resp.stateSlice.puts.filterMap fun p => p.toOption.bind CachePut.storagePart
      | .error _ => []
  | .read (.storage a index) =>
      ((storageRef db a index c).toOption.map fun r => ((a, index), r.1)).toList
  | .read _ => []

/-! ## What a call does to the caches -/

section Uses

variable {evm : Evm} {spec : ChainSpec} {db : StateDb}

theorem accounts_eq_putAll (c : RemoteCache) (call : Call) :
    (step evm spec db c call).accounts = c.accounts.putAll (accountUses evm spec db c call) := by
  cases call with
  | prefetch toAddr calldata fromAddr value =>
      rw [step, accountUses]
      rcases prefetch_cases evm spec db c toAddr calldata fromAddr value with
        ⟨e, he, hc⟩ | ⟨resp, ps, acc, hresp, hputs, _, hc⟩
      · -- a refused prefetch files nothing
        rw [he, hc]
        rfl
      · rw [hresp, hc, foldl_put]
        simp only [hputs, List.filterMap_map]
        rfl
  | read q =>
      cases q with
      | basic a =>
          rw [step, read, accountUses, basicRef_eq]
          cases c.accounts.peek a with
          | some o => rfl
          -- a read that fails leaves the cache as it was
          | none => cases db.getAccount a <;> rfl
      | storage a index =>
          rw [step, read, accountUses, storageRef_eq]
          · cases c.storage.peek (a, index) with
            | some v => rfl
            | none => cases db.storageRef a index <;> rfl
          · simp
      | codeByHash h =>
          rw [step, read, codeByHashRef_eq]
          rfl
      | step i => rfl

theorem storage_eq_putAll (c : RemoteCache) (call : Call) :
    (step evm spec db c call).storage = c.storage.putAll (slotUses evm spec db c call) := by
  cases call with
  | prefetch toAddr calldata fromAddr value =>
      rw [step, slotUses]
      rcases prefetch_cases evm spec db c toAddr calldata fromAddr value with
        ⟨e, he, hc⟩ | ⟨resp, ps, acc, hresp, hputs, _, hc⟩
      · rw [he, hc]
        rfl
      · rw [hresp, hc, foldl_put]
        simp only [hputs, List.filterMap_map]
        rfl
  | read q =>
      cases q with
      | basic a =>
          rw [step, read, slotUses, basicRef_eq]
          · cases c.accounts.peek a with
            | some o => rfl
            | none => cases db.getAccount a <;> rfl
          · simp
      | storage a index =>
          rw [step, read, slotUses, storageRef_eq]
          cases c.storage.peek (a, index) with
          | some v => rfl
          | none => cases db.storageRef a index <;> rfl
      | codeByHash h =>
          rw [step, read, codeByHashRef_eq]
          rfl
      | step i => rfl

end Uses

/-! ## What a call asks for -/

section Requests

variable {evm : Evm} {spec : ChainSpec} {db : StateDb}

theorem peek_eq_none_iff {κ ν : Type} [DecidableEq κ] {c : Lru κ ν} {k : κ} :
    c.peek k = none ↔ k ∉ c.keys := by
  rw [← Lru.contains_iff, Lru.contains, Bool.not_eq_true, Option.isSome_eq_false_iff,
    Option.isNone_iff_eq_none]

/-- A slot that is not cached is asked for, and nothing else is. -/
theorem requests_storage (c : RemoteCache) (a : Address) (index : U256) :
    requests evm spec db c (.read (.storage a index))
      = if (a, index) ∈ c.storage.keys then [] else [.getStorage a index] := by
  simp only [requests, Steps.read, Steps.storageRef, Dialogue.trace, Act.perform, Lru.get_eq]
  cases hpeek : c.storage.peek (a, index) with
  | some v =>
      rw [if_pos (by_contra fun h => by simp [peek_eq_none_iff.mpr h] at hpeek)]
      rfl
  | none =>
      rw [if_neg (peek_eq_none_iff.mp hpeek)]
      dsimp only [Dialogue.trace, Act.perform]
      cases fetchStorage db a index <;> rfl

/-- The code that is asked for with an account. -/
def codeRequest (db : StateDb) (c : RemoteCache) (a : Address) : List Act :=
  match db.getAccount a with
  | .ok (some info) =>
      if EmptyHash info.codeHash ∨ c.code.contains info.codeHash then []
      else [.getCode a info.codeHash]
  | _ => []

theorem requests_fetchCode (c : RemoteCache) (a : Address) (h : B256) :
    ((Steps.fetchCodeForAddress a h).trace (Act.perform evm spec db) c).filter Act.isRequest
      = if c.code.contains h then [] else [.getCode a h] := by
  rw [Steps.fetchCodeForAddress]
  simp only [Dialogue.trace, Act.perform]
  by_cases hcached : c.code.contains h = true
  · simp [hcached, Dialogue.trace, Act.isRequest]
  · simp only [hcached, Bool.false_eq_true, if_false, Dialogue.trace, Act.perform]
    cases fetch (Api.getCode db a.toHex) (fun r => decodeBytes r.code) with
    | error e => rfl
    | ok o => cases o <;> rfl

theorem requests_fetchAccount (c : RemoteCache) (a : Address) :
    ((Steps.fetchAccount a).trace (Act.perform evm spec db) c).filter Act.isRequest
      = .getAccount a :: codeRequest db c a := by
  simp only [Steps.fetchAccount, Dialogue.trace, Act.perform, fetch_account, codeRequest]
  cases db.getAccount a with
  | error e => rfl
  | ok o =>
      cases o with
      | none => rfl
      | some info =>
          simp only [Except.mapError, ne_eq]
          -- code is asked for too, unless the hash is one of empty code
          by_cases hempty : EmptyHash info.codeHash
          · rw [if_neg fun h => hempty.elim h.1 h.2, if_pos (.inl hempty)]
            rfl
          · rw [if_pos ⟨fun h => hempty (.inl h), fun h => hempty (.inr h)⟩, Dialogue.trace_bind,
              List.filter_cons_of_pos rfl, List.filter_append, requests_fetchCode]
            simp [hempty, Dialogue.trace]

/-- So is an account, and with it its code. -/
theorem requests_basic (c : RemoteCache) (a : Address) :
    requests evm spec db c (.read (.basic a))
      = if a ∈ c.accounts.keys then [] else .getAccount a :: codeRequest db c a := by
  simp only [requests, Steps.read, Steps.basicRef, Dialogue.trace, Act.perform, Lru.get_eq]
  cases hpeek : c.accounts.peek a with
  | some o =>
      rw [if_pos (by_contra fun h => by simp [peek_eq_none_iff.mpr h] at hpeek)]
      rfl
  | none =>
      rw [if_neg (peek_eq_none_iff.mp hpeek), List.filter_cons_of_neg Bool.false_ne_true]
      -- a miss leaves the cache as it is, and what is fetched is filed without a request
      have hsame : ({ c with accounts := c.accounts.putAll [] } : RemoteCache) = c := rfl
      simp only [Option.map_none, Option.toList_none, hsame, Dialogue.trace_bind,
        List.filter_append, requests_fetchAccount]
      cases ((Steps.fetchAccount a).play (Act.perform evm spec db) c).1 <;>
        simp [Dialogue.trace, Act.isRequest]

theorem requests_codeByHash (c : RemoteCache) (h : B256) :
    requests evm spec db c (.read (.codeByHash h)) = [] := rfl

theorem requests_prefetch (c : RemoteCache) (toAddr : Address) (calldata : Bytes)
    (fromAddr : Option Address) (value : Option U256) :
    requests evm spec db c (.prefetch toAddr calldata fromAddr value)
      = [.postPrefetch (prefetchRequest toAddr calldata fromAddr value)] := by
  simp only [requests, Steps.prefetch, Dialogue.trace, Act.perform]
  cases postPrefetch evm db spec (prefetchRequest toAddr calldata fromAddr value) <;> rfl

end Requests

/-! ## Caches that fetch -/

/-- A cache of the client, with what calls use of it and which requests fill it. -/
structure Tier (evm : Evm) (spec : ChainSpec) (db : StateDb) (κ ν : Type) [DecidableEq κ] where
  cache : RemoteCache → Lru κ ν
  uses : RemoteCache → Call → List (κ × ν)
  request : Act → Option κ
  step_eq : ∀ c call, cache (step evm spec db c call) = (cache c).putAll (uses c call)
  /-- Nothing is asked for that is there, and what is asked for is used. -/
  asks : ∀ c call, ∀ k ∈ (requests evm spec db c call).filterMap request,
    k ∉ (cache c).keys ∧ k ∈ (uses c call).map Prod.fst
  once : ∀ c call, ((requests evm spec db c call).filterMap request).Nodup

/-- What a run uses of a cache, in order. -/
def used {κ ν : Type} (evm : Evm) (spec : ChainSpec) (db : StateDb)
    (uses : RemoteCache → Call → List (κ × ν)) (c : RemoteCache) : List Call → List κ
  | [] => []
  | call :: calls =>
      (uses c call).map Prod.fst ++ used evm spec db uses (step evm spec db c call) calls

section Runs

variable {evm : Evm} {spec : ChainSpec} {db : StateDb} {κ ν : Type}

theorem used_concat (uses : RemoteCache → Call → List (κ × ν)) (c : RemoteCache) (calls : List Call)
    (call : Call) :
    used evm spec db uses c (calls ++ [call])
      = used evm spec db uses c calls ++ (uses (run evm spec db c calls) call).map Prod.fst := by
  induction calls generalizing c with
  | nil => simp [used, run]
  | cons first calls ih =>
      rw [List.cons_append, used, ih, used, List.append_assoc]
      rfl

theorem runRequests_concat (c : RemoteCache) (calls : List Call) (call : Call) :
    runRequests evm spec db c (calls ++ [call])
      = runRequests evm spec db c calls ++ requests evm spec db (run evm spec db c calls) call := by
  induction calls generalizing c with
  | nil => simp [runRequests, run]
  | cons first calls ih =>
      rw [List.cons_append, runRequests, ih, runRequests, List.append_assoc]
      rfl

end Runs

/-- Whether a key is among the last that were used, as many as there is room for. -/
def Recent {κ : Type} [DecidableEq κ] (capacity : Nat) (uses : List κ) (k : κ) : Prop :=
  k ∈ uses ∧ (Lists.sinceLast (· == k) uses).toFinset.card < capacity

instance {κ : Type} [DecidableEq κ] (capacity : Nat) (uses : List κ) (k : κ) :
    Decidable (Recent capacity uses k) := inferInstanceAs (Decidable (_ ∧ _))

namespace Tier

variable {evm : Evm} {spec : ChainSpec} {db : StateDb} {κ ν : Type} [DecidableEq κ]
  (t : Tier evm spec db κ ν)

theorem cap_run (c : RemoteCache) (calls : List Call) :
    (t.cache (run evm spec db c calls)).cap = (t.cache c).cap := by
  induction calls generalizing c with
  | nil => rfl
  | cons call calls ih => exact (ih _).trans (by rw [t.step_eq, Lru.cap_putAll])

/-- **What a cache holds** after a run comes from what the run used of it. -/
theorem history_run {c : RemoteCache} {before : List κ} (h : Lru.History (t.cache c) before)
    (calls : List Call) :
    Lru.History (t.cache (run evm spec db c calls))
      (before ++ used evm spec db t.uses c calls) := by
  induction calls generalizing c before with
  | nil => simpa [used, run] using h
  | cons call calls ih =>
      rw [used, ← List.append_assoc]
      exact ih (by rw [t.step_eq]; exact h.putAll _)

/-- It holds the keys that were used last. -/
theorem mem_keys_iff (c : RemoteCache) (hnew : Lru.History (t.cache c) []) (calls : List Call)
    {k : κ} :
    k ∈ (t.cache (run evm spec db c calls)).keys
      ↔ Recent (t.cache c).cap (used evm spec db t.uses c calls) k := by
  rw [(t.history_run hnew calls).mem_keys_iff, t.cap_run]
  exact Iff.rfl

/-- What is asked for is used. -/
theorem used_of_asked {c : RemoteCache} {calls : List Call} {k : κ}
    (h : k ∈ (runRequests evm spec db c calls).filterMap t.request) :
    k ∈ used evm spec db t.uses c calls := by
  induction calls generalizing c with
  | nil => cases h
  | cons call calls ih =>
      rw [runRequests, List.filterMap_append, List.mem_append] at h
      rw [used, List.mem_append]
      exact h.imp (fun h => (t.asks c call k h).2) ih

/-- **Nothing is asked for twice** as long as all that was used fits. -/
theorem nodup_asked (c : RemoteCache) (hnew : Lru.History (t.cache c) []) {calls : List Call}
    (hfits : (used evm spec db t.uses c calls).toFinset.card ≤ (t.cache c).cap) :
    ((runRequests evm spec db c calls).filterMap t.request).Nodup := by
  induction calls using List.reverseRecOn with
  | nil => exact .nil
  | append_singleton calls call ih =>
      rw [used_concat] at hfits
      have hsub : (used evm spec db t.uses c calls).toFinset
          ⊆ (used evm spec db t.uses c calls
            ++ (t.uses (run evm spec db c calls) call).map Prod.fst).toFinset := by
        rw [List.toFinset_append]
        exact Finset.subset_union_left
      have hfits' := (Finset.card_le_card hsub).trans hfits
      rw [runRequests_concat, List.filterMap_append, List.nodup_append]
      refine ⟨ih hfits', t.once _ call, ?_⟩
      rintro k hk _ hk' rfl
      -- it was used, and others do not fill the cache
      have hused := t.used_of_asked hk
      refine (t.asks _ call k hk').1 ((t.mem_keys_iff c hnew calls).mpr ⟨hused, ?_⟩)
      refine lt_of_lt_of_le (Finset.card_lt_card ?_) hfits'
      rw [Finset.ssubset_iff_of_subset]
      · refine ⟨k, List.mem_toFinset.mpr hused, fun hx => ?_⟩
        simpa using (Lists.of_mem_sinceLast (List.mem_toFinset.mp hx)).2
      · intro x hx
        exact List.mem_toFinset.mpr (Lists.of_mem_sinceLast (List.mem_toFinset.mp hx)).1

end Tier

/-! ## Accounts and slots -/

section Tiers

variable {evm : Evm} {spec : ChainSpec} {db : StateDb}

theorem codeRequest_other (c : RemoteCache) (a : Address) :
    (codeRequest db c a).filterMap Act.account = []
      ∧ (codeRequest db c a).filterMap Act.slot = [] := by
  unfold codeRequest
  split
  · split <;> exact ⟨rfl, rfl⟩
  · exact ⟨rfl, rfl⟩

/-- The accounts a call asks for. -/
theorem accounts_asked (c : RemoteCache) (call : Call) :
    (requests evm spec db c call).filterMap Act.account = []
      ∨ ∃ a, call = .read (.basic a) ∧ a ∉ c.accounts.keys
          ∧ (requests evm spec db c call).filterMap Act.account = [a] := by
  cases call with
  | prefetch toAddr calldata fromAddr value =>
      rw [requests_prefetch]
      exact .inl rfl
  | read q =>
      cases q with
      | basic a =>
          rw [requests_basic]
          split
          · exact .inl rfl
          · -- the code that is asked for with it is no account
            rename_i hmiss
            exact .inr ⟨a, rfl, hmiss, congrArg (a :: ·) (codeRequest_other c a).1⟩
      | storage a index =>
          rw [requests_storage]
          split <;> exact .inl rfl
      | codeByHash h => exact .inl rfl
      | step i => exact .inl rfl

/-- The slots. -/
theorem slots_asked (c : RemoteCache) (call : Call) :
    (requests evm spec db c call).filterMap Act.slot = []
      ∨ ∃ a index, call = .read (.storage a index) ∧ (a, index) ∉ c.storage.keys
          ∧ (requests evm spec db c call).filterMap Act.slot = [(a, index)] := by
  cases call with
  | prefetch toAddr calldata fromAddr value =>
      rw [requests_prefetch]
      exact .inl rfl
  | read q =>
      cases q with
      | basic a =>
          rw [requests_basic]
          split
          · exact .inl rfl
          · exact .inl (codeRequest_other c a).2
      | storage a index =>
          rw [requests_storage]
          split
          · exact .inl rfl
          · rename_i hmiss
            exact .inr ⟨a, index, rfl, hmiss, rfl⟩
      | codeByHash h => exact .inl rfl
      | step i => exact .inl rfl

variable (evm spec)

/-- The accounts of a client, where no read fails. -/
def accountTier (hdb : db.WellFormed) : Tier evm spec db Address (Option AccountInfo) where
  cache c := c.accounts
  uses := accountUses evm spec db
  request := Act.account
  step_eq := accounts_eq_putAll
  asks c call k hk := by
    rcases @accounts_asked evm spec db c call with h | ⟨a, rfl, hmiss, h⟩
    · rw [h] at hk
      cases hk
    · rw [h, List.mem_singleton] at hk
      obtain ⟨o, ho⟩ := hdb.getAccount_ok a
      subst hk
      refine ⟨hmiss, ?_⟩
      simp [accountUses, basicRef_eq, peek_eq_none_iff.mpr hmiss, ho, Except.toOption]
  once c call := by
    rcases @accounts_asked evm spec db c call with h | ⟨a, _, _, h⟩ <;> simp [h]

/-- The slots. -/
def slotTier (hdb : db.WellFormed) : Tier evm spec db (Address × U256) U256 where
  cache c := c.storage
  uses := slotUses evm spec db
  request := Act.slot
  step_eq := storage_eq_putAll
  asks c call k hk := by
    rcases @slots_asked evm spec db c call with h | ⟨a, index, rfl, hmiss, h⟩
    · rw [h] at hk
      cases hk
    · rw [h, List.mem_singleton] at hk
      obtain ⟨v, hv⟩ := hdb.storageRef_ok a index
      subst hk
      refine ⟨hmiss, ?_⟩
      simp [slotUses, storageRef_eq, peek_eq_none_iff.mpr hmiss, hv, Except.toOption]
  once c call := by
    rcases @slots_asked evm spec db c call with h | ⟨a, index, _, _, h⟩ <;> simp [h]

end Tiers

/--
**When the server is asked.** On a database that stays, whatever a client has done, it
reads an account without asking the server exactly if the account is among the last that it
used, as many as its cache has room for, and likewise a slot. Otherwise it asks for the
account, and for its code unless that is empty or cached; or for the slot. It never asks
for code by its hash, and for a prefetch it sends one request.
-/
theorem reads_ask_iff (evm : Evm) (spec : ChainSpec) {db : StateDb} (hdb : db.WellFormed)
    {capacity : Nat} (pos : 0 < capacity) (calls : List Call) :
    let c := run evm spec db (.new capacity pos) calls
    let accounts := used evm spec db (accountUses evm spec db) (.new capacity pos) calls
    let slots := used evm spec db (slotUses evm spec db) (.new capacity pos) calls
    (∀ a, (Recent capacity accounts a → requests evm spec db c (.read (.basic a)) = [])
        ∧ (¬ Recent capacity accounts a →
          requests evm spec db c (.read (.basic a)) = .getAccount a :: codeRequest db c a))
      ∧ (∀ a index, (Recent capacity slots (a, index) →
            requests evm spec db c (.read (.storage a index)) = [])
          ∧ (¬ Recent capacity slots (a, index) →
            requests evm spec db c (.read (.storage a index)) = [.getStorage a index]))
      ∧ (∀ h, requests evm spec db c (.read (.codeByHash h)) = [])
      ∧ ∀ toAddr calldata fromAddr value,
          requests evm spec db c (.prefetch toAddr calldata fromAddr value)
            = [.postPrefetch (prefetchRequest toAddr calldata fromAddr value)] := by
  intro c accounts slots
  -- a key is in a cache exactly if it was used recently
  have haccount : ∀ a, a ∈ c.accounts.keys ↔ Recent capacity accounts a := fun a =>
    (accountTier evm spec hdb).mem_keys_iff (.new capacity pos) (Lru.history_new capacity pos) calls
  have hslot : ∀ a index, (a, index) ∈ c.storage.keys ↔ Recent capacity slots (a, index) :=
    fun a index => (slotTier evm spec hdb).mem_keys_iff (.new capacity pos)
      (Lru.history_new capacity pos) calls
  refine ⟨fun a => ⟨fun h => ?_, fun h => ?_⟩, fun a index => ⟨fun h => ?_, fun h => ?_⟩,
    requests_codeByHash c, requests_prefetch c⟩
  · rw [requests_basic, if_pos ((haccount a).mpr h)]
  · rw [requests_basic, if_neg fun hkey => h ((haccount a).mp hkey)]
  · rw [requests_storage, if_pos ((hslot a index).mpr h)]
  · rw [requests_storage, if_neg fun hkey => h ((hslot a index).mp hkey)]

theorem wellFormed_twoContractsDb : twoContractsDb.WellFormed :=
  StateDb.wellFormed_commit StateDb.wellFormed_empty _

/-- Accounts are read, one after another. -/
def basicReads (addrs : List Address) : List Call := addrs.map fun a => .read (.basic a)

/-- Reads of accounts use just these, found or fetched. -/
theorem used_basicReads (evm : Evm) (spec : ChainSpec) {db : StateDb} (hdb : db.WellFormed)
    (c : RemoteCache) (addrs : List Address) :
    used evm spec db (accountUses evm spec db) c (basicReads addrs) = addrs := by
  induction addrs generalizing c with
  | nil => rfl
  | cons a addrs ih =>
      -- cached or not, the read finds something and files it
      have hhead : (accountUses evm spec db c (.read (.basic a))).map Prod.fst = [a] := by
        obtain ⟨o, ho⟩ := hdb.getAccount_ok a
        cases hpeek : c.accounts.peek a with
        | some o' => simp [accountUses, basicRef_eq, hpeek, Except.toOption]
        | none => simp [accountUses, basicRef_eq, hpeek, ho, Except.toOption]
      have hrest := ih (step evm spec db c (.read (.basic a)))
      rw [basicReads] at hrest
      rw [basicReads, List.map_cons, used, hhead, hrest, List.singleton_append]

/-- Two accounts are read. -/
def twoReads : List Call := basicReads [0xA, 0xB]

/-- With room for one account, the first of two is asked for again, and the second is not. -/
theorem reads_ask_iff_twoReads :
    let c := run (.small smallKeccak256) ethereumMainnet twoContractsDb (.new 1 (by decide)) twoReads
    requests (.small smallKeccak256) ethereumMainnet twoContractsDb c (.read (.basic 0xB)) = []
      ∧ requests (.small smallKeccak256) ethereumMainnet twoContractsDb c (.read (.basic 0xA))
        = .getAccount 0xA :: codeRequest twoContractsDb c 0xA := by
  intro c
  have hask := (reads_ask_iff (.small smallKeccak256) ethereumMainnet wellFormed_twoContractsDb
    (show 0 < 1 by decide) twoReads).1
  rw [twoReads, used_basicReads _ _ wellFormed_twoContractsDb] at hask
  exact ⟨(hask 0xB).1 (by decide), (hask 0xA).2 (by decide)⟩

/--
**Nothing is asked for twice.** On a database that stays, a client asks for each account
and each slot at most once, in any run that does not use more of them than its caches have
room for.
-/
theorem nothing_twice (evm : Evm) (spec : ChainSpec) {db : StateDb} (hdb : db.WellFormed)
    {capacity : Nat} (pos : 0 < capacity) (calls : List Call) :
    let asked := runRequests evm spec db (.new capacity pos) calls
    ((used evm spec db (accountUses evm spec db) (.new capacity pos) calls).toFinset.card ≤ capacity →
        (asked.filterMap Act.account).Nodup)
      ∧ ((used evm spec db (slotUses evm spec db) (.new capacity pos) calls).toFinset.card ≤ capacity →
        (asked.filterMap Act.slot).Nodup) :=
  ⟨fun h => (accountTier evm spec hdb).nodup_asked (.new capacity pos) (Lru.history_new capacity pos) h,
    fun h => (slotTier evm spec hdb).nodup_asked (.new capacity pos) (Lru.history_new capacity pos) h⟩

/-- The first account is read once more. -/
def rereads : List Call := basicReads [0xA, 0xB, 0xA]

/-- With room for both, each is asked for once, however often it is read. -/
theorem nothing_twice_rereads :
    ((runRequests (.small smallKeccak256) ethereumMainnet twoContractsDb (.new 2 (by decide))
      rereads).filterMap Act.account).Nodup := by
  refine (nothing_twice (.small smallKeccak256) ethereumMainnet wellFormed_twoContractsDb
    (show 0 < 2 by decide) rereads).1 ?_
  rw [rereads, used_basicReads _ _ wellFormed_twoContractsDb]
  decide

end RemoteDb

end EvmState
