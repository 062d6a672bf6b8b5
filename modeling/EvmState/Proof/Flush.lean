import EvmState.CacheDb
import EvmState.Proof.StateDb
import EvmState.Replayer.Block

/-!
# What a flush leaves, and when it answers like the overlay

`flushVal` says what the flush leaves at each key, whatever order the hash maps
are walked in (`lastVal_flushBatch`). Against it stand the overlay's answers.

Accounts always agree, and so does every slot the overlay has cached. The flush
never clears storage, though: the slots of a destroyed or re-created account that
the overlay answers with zero, because the EVM wiped them, are still in the
`storage` table. `flushCacheToDb_answersAs_iff` says exactly when that shows, and
`flushCacheToDb_keeps_destroyed_storage` shows it.
-/

namespace EvmState

open Std

/-! ## What the flush leaves at each key -/

/-- The value the flush leaves at a key, `none` where it writes nothing. -/
def flushVal (c : Cache) (blockNumber : Option U64) : Key → Option (Option Bytes)
  | .account a =>
      match c.accounts[a]? with
      | some acct =>
          match acct.accountState with
          | .notExisting => some none
          | .touched | .storageCleared => some (some acct.info.toBytes)
          | .none => none
      | none => none
  | .slot a s =>
      match c.accounts[a]? with
      | some acct =>
          match acct.accountState with
          | .touched | .storageCleared => (acct.storage[s]?).map (fun v => some (beOf 32 v))
          | .notExisting | .none => none
      | none => none
  | .code h =>
      match c.contracts[h]? with
      | some raw => if raw.isEmpty then none else some (some raw)
      | none => none
  | .headBlock => blockNumber.map (fun n => some (beOf 8 n))

theorem flushVal_of_mem_flushAccount {σ : HashOrder} {c : Cache} {n : Option U64} {a : Address}
    {acct : DbAccount} {w : Write} (ha : c.accounts[a]? = some acct)
    (hw : w ∈ flushAccount σ (a, acct)) : flushVal c n w.key = some w.val := by
  obtain ⟨info, state, slots⟩ := acct
  cases state with
  | notExisting =>
      obtain rfl := List.mem_singleton.mp hw
      simp [Write.key, Write.val, flushVal, ha]
  | none => cases hw
  | touched | storageCleared =>
      rcases List.mem_cons.mp hw with rfl | hw
      · simp [Write.key, Write.val, flushVal, ha]
      · obtain ⟨⟨s, v⟩, hs, rfl⟩ := List.mem_map.mp hw
        have hs := HashOrder.mem_entries.mp hs
        simp only at hs
        simp [Write.key, Write.val, flushVal, ha, hs]

theorem mem_flushBatch {σ : HashOrder} {c : Cache} {n : Option U64} {w : Write} :
    w ∈ flushBatch σ c n ↔
      (∃ a acct, c.accounts[a]? = some acct ∧ w ∈ flushAccount σ (a, acct))
        ∨ (∃ h raw, c.contracts[h]? = some raw ∧ w ∈ flushContract (h, raw))
        ∨ ∃ m, n = some m ∧ w = .setHeadBlock m := by
  simp only [flushBatch, List.mem_append, List.mem_flatMap, Prod.exists, HashOrder.mem_entries,
    Option.mem_toList, Option.map_eq_some_iff, or_assoc, eq_comm (a := w)]

/-- Every write of a flush carries the value of its key. -/
theorem flushVal_of_mem_flushBatch {σ : HashOrder} {c : Cache} {n : Option U64} {w : Write}
    (hw : w ∈ flushBatch σ c n) : flushVal c n w.key = some w.val := by
  rcases mem_flushBatch.mp hw with ⟨a, acct, ha, hw⟩ | ⟨h, raw, hc, hw⟩ | ⟨m, rfl, rfl⟩
  · exact flushVal_of_mem_flushAccount ha hw
  · unfold flushContract at hw
    split at hw
    · cases hw
    · rename_i hne
      obtain rfl := List.mem_singleton.mp hw
      simp only at hne
      simp [Write.key, Write.val, flushVal, hc, hne]
  · rfl

/-- Every key that has a value is written. -/
theorem exists_mem_flushBatch (σ : HashOrder) {c : Cache} {n : Option U64} {k : Key}
    {v : Option Bytes} (hv : flushVal c n k = some v) : ∃ w ∈ flushBatch σ c n, w.key = k := by
  cases k with
  | account a =>
      simp only [flushVal] at hv
      split at hv
      · rename_i acct ha
        obtain ⟨info, state, slots⟩ := acct
        cases state with
        | notExisting =>
            exact ⟨.deleteAccount a,
              mem_flushBatch.mpr (.inl ⟨a, _, ha, by simp [flushAccount]⟩), rfl⟩
        | none => simp at hv
        | touched | storageCleared =>
            exact ⟨.setAccount a info,
              mem_flushBatch.mpr (.inl ⟨a, _, ha, by simp [flushAccount]⟩), rfl⟩
      · cases hv
  | slot a s =>
      simp only [flushVal] at hv
      split at hv
      · rename_i acct ha
        obtain ⟨info, state, slots⟩ := acct
        cases state with
        | notExisting | none => simp at hv
        | touched | storageCleared =>
            obtain ⟨u, hu, _⟩ := Option.map_eq_some_iff.mp hv
            have hmem := (HashOrder.mem_entries (σ := σ)).mpr hu
            exact ⟨.setStorage a s u, mem_flushBatch.mpr (.inl ⟨a, _, ha,
              List.mem_cons_of_mem _ (List.mem_map.mpr ⟨(s, u), hmem, rfl⟩)⟩), rfl⟩
      · cases hv
  | code h =>
      simp only [flushVal] at hv
      split at hv
      · rename_i raw hc
        split at hv
        · cases hv
        · rename_i hne
          exact ⟨.setCode h raw,
            mem_flushBatch.mpr (.inr (.inl ⟨h, raw, hc, by simp [flushContract, hne]⟩)), rfl⟩
      · cases hv
  | headBlock =>
      simp only [flushVal] at hv
      obtain ⟨m, hm, _⟩ := Option.map_eq_some_iff.mp hv
      exact ⟨.setHeadBlock m, mem_flushBatch.mpr (.inr (.inr ⟨m, hm, rfl⟩)), rfl⟩

/-- **What a flush leaves**, for every order the hash maps are walked in. -/
theorem lastVal_flushBatch (σ : HashOrder) (c : Cache) (n : Option U64) (k : Key) :
    (flushBatch σ c n).lastVal k = flushVal c n k := by
  -- no key is written twice with different values, so the order of the walks plays no part
  refine WriteBatch.lastVal_eq_of_spec (fun w hw => flushVal_of_mem_flushBatch hw) ?_ k
  intro k v hv
  exact exists_mem_flushBatch σ hv

/-! ## What every reachable overlay looks like -/

/-- The facts about an overlay that reads and commits keep. -/
structure CacheInv (db : StateDb) (c : Cache) : Prop where
  /-- An untouched entry holds what was loaded. -/
  loaded : ∀ (a : Address) (acct : DbAccount), c.accounts[a]? = some acct →
    acct.accountState = .none → db.basicRef a = .ok (some acct.info)
  /-- So do its slots. -/
  loadedSlots : ∀ (a : Address) (acct : DbAccount), c.accounts[a]? = some acct →
    acct.accountState = .none →
      ∀ (s : U256) (v : U256), acct.storage[s]? = some v → db.storageRef a s = .ok v
  /-- An account that does not exist has no slots. -/
  noSlots : ∀ (a : Address) (acct : DbAccount), c.accounts[a]? = some acct →
    acct.accountState = .notExisting → ∀ s : U256, acct.storage[s]? = none
  /-- Only the two built-in hashes stand for empty code the database may know better. -/
  emptyCode : ∀ h : B256, c.contracts[h]? = some [] →
    h = 0 ∨ h = KECCAK256_EMPTY ∨ db.codeByHashRef h = []
  /-- The built-in hashes stay empty. -/
  builtin : c.contracts[(0 : B256)]? = some [] ∧ c.contracts[KECCAK256_EMPTY]? = some []

theorem cacheInv_new (db : StateDb) : CacheInv db .new := by
  have hacc : ∀ a : Address, Cache.new.accounts[a]? = none := fun a => by simp [Cache.new]
  refine ⟨fun a acct h => ?_, fun a acct h => ?_, fun a acct h => ?_, fun h hh => ?_, ?_, ?_⟩
  · rw [hacc] at h; cases h
  · rw [hacc] at h; cases h
  · rw [hacc] at h; cases h
  · simp only [Cache.new, ExtTreeMap.getElem?_insert, Std.compare_eq_iff_eq] at hh
    split at hh
    · rename_i h0
      exact .inl h0.symm
    · split at hh
      · rename_i h1
        exact .inr (.inl h1.symm)
      · simp at hh
  · simp [Cache.new]
  · rw [Cache.new, ExtTreeMap.getElem?_insert]
    simp [KECCAK256_EMPTY]

/-- What is filed under the built-in hashes stays, where only free hashes are filed anew. -/
theorem CacheInv.builtin_kept {db : StateDb} {c c' : Cache} (h : CacheInv db c)
    (hkept : ∀ hash : B256, c'.contracts[hash]? = c.contracts[hash]? ∨ c.contracts[hash]? = none) :
    c'.contracts[(0 : B256)]? = some [] ∧ c'.contracts[KECCAK256_EMPTY]? = some [] := by
  have hstay : ∀ hash : B256, c.contracts[hash]? = some [] → c'.contracts[hash]? = some [] := by
    intro hash hh
    rcases hkept hash with hc | hn
    · rw [hc, hh]
    · rw [hh] at hn
      cases hn
  exact ⟨hstay 0 h.builtin.1, hstay KECCAK256_EMPTY h.builtin.2⟩

theorem cacheInv_loaded {db : StateDb} {c c' : Cache} (h : CacheInv db c) (hl : Loaded db c c') :
    CacheInv db c' := by
  -- an entry is as it was, was loaded just now, or has more slots than it had
  have key : ∀ (a : Address) (acct' : DbAccount), c'.accounts[a]? = some acct' →
      EntryLoaded db a c.accounts[a]? (some acct') := fun a acct' ha => ha ▸ hl.accounts a
  refine ⟨?_, ?_, ?_, ?_, ?_⟩
  · intro a acct' ha hst
    have hentry := key a acct' ha
    generalize hc : c.accounts[a]? = e at hentry
    cases hentry with
    | same => exact h.loaded a acct' hc hst
    | missing _ => cases hst
    | account hb _ => exact hb
    | @slots acct _ _ _ => exact h.loaded a acct hc hst
  · intro a acct' ha hst s v hs
    have hentry := key a acct' ha
    generalize hc : c.accounts[a]? = e at hentry
    cases hentry with
    | same => exact h.loadedSlots a acct' hc hst s v hs
    | missing _ => cases hst
    | account _ hv => exact hv s v hs
    | slots _ hv =>
        rcases hv s with hv | ⟨_, u, hu, hdb⟩
        · exact h.loadedSlots a _ hc hst s v (hv ▸ hs)
        · rw [hu] at hs
          exact Option.some.inj hs ▸ hdb
  · intro a acct' ha hst s
    have hentry := key a acct' ha
    generalize hc : c.accounts[a]? = e at hentry
    cases hentry with
    | same => exact h.noSlots a acct' hc hst s
    | missing _ => simp [DbAccount.newNotExisting]
    | account _ _ => cases hst
    | slots hcl _ =>
        simp only at hst
        rw [hst] at hcl
        cases hcl
  · intro hash hh
    rcases hl.contracts hash with hc | ⟨_, hc⟩
    · exact h.emptyCode hash (hc ▸ hh)
    · rw [hc] at hh
      exact .inr (.inr (Option.some.inj hh))
  · exact h.builtin_kept fun hash => (hl.contracts hash).imp_right And.left

theorem cacheInv_committed {hashSlow : Bytes → B256} {db : StateDb} {st : Changes} {c c' : Cache}
    (h : CacheInv db c) (hl : Committed hashSlow st c c') : CacheInv db c' := by
  -- a commit leaves an entry alone, or leaves it in a state that is not `none`
  have key : ∀ (a : Address) (acct' : DbAccount),
      c'.accounts[a]? = some acct' → c.accounts[a]? = some acct'
      ∨ acct' = .newNotExisting
      ∨ acct'.accountState = .touched ∨ acct'.accountState = .storageCleared := by
    intro a acct' ha
    have := hl.accounts a
    rw [ha] at this
    generalize hc : c.accounts[a]? = e at this
    generalize st[a]? = chg at this
    cases this with
    | untouched _ => exact .inl rfl
    | destroyed _ _ => exact .inr (.inl rfl)
    | created _ _ _ _ => exact .inr (.inr (.inr rfl))
    | changed _ _ _ _ hs _ _ => exact .inr (.inr hs)
  refine ⟨?_, ?_, ?_, ?_, ?_⟩
  · intro a acct' ha hst
    rcases key a acct' ha with hc | rfl | hs | hs
    · exact h.loaded a acct' hc hst
    · cases hst
    · rw [hst] at hs; cases hs
    · rw [hst] at hs; cases hs
  · intro a acct' ha hst
    rcases key a acct' ha with hc | rfl | hs | hs
    · exact h.loadedSlots a acct' hc hst
    · cases hst
    · rw [hst] at hs; cases hs
    · rw [hst] at hs; cases hs
  · intro a acct' ha hst s
    rcases key a acct' ha with hc | rfl | hs | hs
    · exact h.noSlots a acct' hc hst s
    · simp [DbAccount.newNotExisting]
    · rw [hst] at hs; cases hs
    · rw [hst] at hs; cases hs
  · intro hash hh
    rcases hl.contracts hash with hc | ⟨_, a, acc, raw, _, _, hne, hc, _⟩
    · exact h.emptyCode hash (hc ▸ hh)
    · rw [hc] at hh
      exact absurd (Option.some.inj hh) hne
  · exact h.builtin_kept fun hash => (hl.contracts hash).imp_right And.left

theorem cacheInv_reachable {evm : Evm} {db : StateDb} {c : Cache} (h : evm.Reachable db c) :
    CacheInv db c := by
  induction h with
  | new => exact cacheInv_new db
  | read q _ ih => exact cacheInv_loaded ih (evm.load_spec db _ q)
  | commit st _ ih => exact cacheInv_committed ih (evm.commit_spec _ st)

/-! ## The flushed database against the overlay -/

/-- **Account records always agree.** -/
theorem basicRef_flush {db : StateDb} {c : Cache} (h : CacheInv db c) (σ : HashOrder)
    (n : Option U64) (a : Address) :
    (flushCacheToDb σ db c n).basicRef a = c.basic db a := by
  have hl := lastVal_flushBatch σ c n (.account a)
  cases ha : c.accounts[a]? with
  | none =>
      simp only [flushVal, ha] at hl
      rw [Cache.basic_uncached ha]
      exact StateDb.getAccount_commit_none hl
  | some acct =>
      rw [Cache.basic_cached ha, StateDb.basicRef, flushCacheToDb]
      -- an entry either wrote its record, or holds what was loaded
      cases hs : acct.accountState with
      -- this entry answers "no account", and its record is deleted
      | notExisting =>
          simp only [flushVal, ha, hs] at hl
          exact StateDb.getAccount_commit_deleted hl
      | none =>
          simp only [flushVal, ha, hs] at hl
          have hdb := h.loaded a acct ha hs
          rw [if_neg (by simp), StateDb.getAccount_commit_none hl]
          exact hdb
      | touched | storageCleared =>
          simp only [flushVal, ha, hs] at hl
          rw [if_neg (by simp)]
          exact StateDb.getAccount_commit_set hl

theorem storageRef_flush_set {σ : HashOrder} {db : StateDb} {c : Cache} {n : Option U64}
    {a : Address} {s : U256} {v : U256} (h : flushVal c n (.slot a s) = some (some (beOf 32 v))) :
    (flushCacheToDb σ db c n).storageRef a s = .ok v := by
  rw [← lastVal_flushBatch σ c n] at h
  rw [StateDb.storageRef, flushCacheToDb, StateDb.getStorage_commit_set h]
  rfl

theorem storageRef_flush_none {σ : HashOrder} {db : StateDb} {c : Cache} {n : Option U64}
    {a : Address} {s : U256} (h : flushVal c n (.slot a s) = none) :
    (flushCacheToDb σ db c n).storageRef a s = db.storageRef a s := by
  rw [← lastVal_flushBatch σ c n] at h
  rw [StateDb.storageRef, flushCacheToDb, StateDb.getStorage_commit_none h, StateDb.storageRef]

/-- The slots for which the overlay's zero is an answer of its own. -/
def Cache.Wiped (c : Cache) (a : Address) (s : U256) : Prop :=
  ∃ acct, c.accounts[a]? = some acct ∧ acct.accountState.cleared = true ∧ acct.storage[s]? = none

/-- Slots agree, save that a wiped slot keeps what the database has. -/
theorem storageRef_flush_iff {db : StateDb} {c : Cache} (h : CacheInv db c) (σ : HashOrder)
    (n : Option U64) (a : Address) (s : U256) :
    (flushCacheToDb σ db c n).storageRef a s = c.storage db a s
      ↔ (c.Wiped a s → db.storageRef a s = .ok 0) := by
  cases ha : c.accounts[a]? with
  | none =>
      have hw : ¬ c.Wiped a s := by
        intro hx
        obtain ⟨acct, h1, _⟩ := hx
        rw [ha] at h1
        cases h1
      rw [storageRef_flush_none (by simp [flushVal, ha]), Cache.storage, ha]
      simp [hw]
  | some acct =>
      have hw : c.Wiped a s ↔ acct.accountState.cleared = true ∧ acct.storage[s]? = none := by
        constructor
        · intro hx
          obtain ⟨acct', h1, h2⟩ := hx
          rw [ha] at h1
          exact Option.some.inj h1 ▸ h2
        · exact fun h2 => ⟨acct, ha, h2⟩
      cases hs : acct.storage[s]? with
      | some v =>
          rw [Cache.storage_cached ha hs]
          cases hst : acct.accountState with
          -- its slots went with it, so there is none to be cached
          | notExisting =>
              rw [h.noSlots a acct ha hst s] at hs
              cases hs
          | none =>
              rw [storageRef_flush_none (by simp [flushVal, ha, hst]),
                h.loadedSlots a acct ha hst s v hs]
              simp [hw, hs]
          | touched | storageCleared =>
              rw [storageRef_flush_set (v := v) (by simp [flushVal, ha, hst, hs])]
              simp [hw, hs]
      | none =>
          rw [Cache.storage_uncached ha hs,
            storageRef_flush_none (by cases hst : acct.accountState <;> simp [flushVal, ha, hst, hs])]
          cases hcl : acct.accountState.cleared <;> simp [hw, hs, hcl]

/-- Code agrees, save under the two hashes the overlay takes for empty code. -/
theorem codeByHashRef_flush_iff {db : StateDb} {c : Cache} (h : CacheInv db c) (σ : HashOrder)
    (n : Option U64) (hash : B256) :
    (flushCacheToDb σ db c n).codeByHashRef hash = c.codeByHash db hash
      ↔ (hash = 0 ∨ hash = KECCAK256_EMPTY → db.codeByHashRef hash = []) := by
  -- the built-in entries are empty, and empty code is not written back
  have hbuiltin : hash = 0 ∨ hash = KECCAK256_EMPTY → c.contracts[hash]? = some [] := by
    intro hx
    rcases hx with rfl | rfl
    · exact h.builtin.1
    · exact h.builtin.2
  have hread : (flushCacheToDb σ db c n).codeByHashRef hash
      = ((flushVal c n (.code hash)).getD (db.getCode hash)).getD [] := by
    rw [StateDb.codeByHashRef, flushCacheToDb, StateDb.getCode_commit, lastVal_flushBatch]
  rw [hread, Cache.codeByHash]
  cases hc : c.contracts[hash]? with
  | none =>
      have hne : ¬ (hash = 0 ∨ hash = KECCAK256_EMPTY) := fun hb => by
        rw [hbuiltin hb] at hc
        cases hc
      simp only [flushVal, hc, Option.getD_none, StateDb.codeByHashRef, true_iff]
      exact fun hb => absurd hb hne
  | some raw =>
      cases raw with
      | nil =>
          simp only [flushVal, hc, List.isEmpty_nil, if_true, Option.getD_none]
          constructor
          · exact fun h1 _ => h1
          · intro h1
            rcases h.emptyCode hash hc with h0 | h0 | h0
            · exact h1 (.inl h0)
            · exact h1 (.inr h0)
            · exact h0
      | cons b raw =>
          have hne : ¬ (hash = 0 ∨ hash = KECCAK256_EMPTY) := fun hb => by
            rw [hbuiltin hb] at hc
            cases hc
          simp only [flushVal, hc, List.isEmpty_cons, Bool.false_eq_true, if_false,
            Option.getD_some, true_iff]
          exact fun hb => absurd hb hne

/-- The database answers as the overlay over `db` did. -/
structure StateDb.AnswersAs (db' : StateDb) (db : StateDb) (c : Cache) : Prop where
  basic : ∀ a : Address, db'.basicRef a = c.basic db a
  storage : ∀ (a : Address) (s : U256), db'.storageRef a s = c.storage db a s
  code : ∀ (a : Address) (info : AccountInfo), c.basic db a = .ok (some info) →
    db'.codeByHashRef info.codeHash = c.codeByHash db info.codeHash

/--
**When a flush refines the overlay.** For every overlay that reads and commits
reach: exactly when each slot the overlay answers with a zero of its own reads
zero in the database already, and no account of the overlay has its empty code
stored as something else.
-/
theorem flushCacheToDb_answersAs_iff {evm : Evm} {db : StateDb} {c : Cache}
    (h : evm.Reachable db c) (σ : HashOrder) (n : Option U64) :
    (flushCacheToDb σ db c n).AnswersAs db c
      ↔ (∀ (a : Address) (s : U256), c.Wiped a s → db.storageRef a s = .ok 0)
        ∧ ∀ (a : Address) (info : AccountInfo), c.basic db a = .ok (some info) →
            info.codeHash = 0 ∨ info.codeHash = KECCAK256_EMPTY →
              db.codeByHashRef info.codeHash = [] := by
  have hinv := cacheInv_reachable h
  constructor
  · intro hans
    exact ⟨fun a s => (storageRef_flush_iff hinv σ n a s).mp (hans.storage a s),
      fun a info hb => (codeByHashRef_flush_iff hinv σ n info.codeHash).mp (hans.code a info hb)⟩
  · intro hx
    obtain ⟨hslots, hcode⟩ := hx
    exact ⟨fun a => basicRef_flush hinv σ n a,
      fun a s => (storageRef_flush_iff hinv σ n a s).mpr (hslots a s),
      fun a info hb =>
        (codeByHashRef_flush_iff hinv σ n info.codeHash).mpr (hcode a info hb)⟩

/-- A contract with one slot in use. -/
def contractDb : StateDb :=
  StateDb.empty.commit [.setAccount 0xC ⟨1, 0, 0xC0DE⟩, .setStorage 0xC 1 7, .setCode 0xC0DE [0x60]]

/-- The overlay after a transaction that loaded the contract and destroyed it. -/
def destroyedOverlay (evm : Evm) : Cache :=
  evm.commit (evm.load contractDb .new (.basic 0xC))
    ((∅ : Changes).insert 0xC ⟨⟨1, 0, 0xC0DE⟩, some [0x60], ∅, true, true, false⟩)

theorem reachable_destroyedOverlay (evm : Evm) :
    evm.Reachable contractDb (destroyedOverlay evm) :=
  .commit _ (.read _ .new)

/-- The slot of the destroyed contract reads zero before the flush and 7 after it. -/
theorem flushCacheToDb_keeps_destroyed_storage :
    let evm := Evm.counting (fun _ => KECCAK256_EMPTY)
    let c := destroyedOverlay evm
    evm.Reachable contractDb c
      ∧ c.storage contractDb 0xC 1 = .ok 0
      ∧ (flushCacheToDb .sorted contractDb c (some 5)).storageRef 0xC 1 = .ok 7
      ∧ ¬ (flushCacheToDb .sorted contractDb c (some 5)).AnswersAs contractDb c := by
  have hbefore : (destroyedOverlay (.counting fun _ => KECCAK256_EMPTY)).storage contractDb 0xC 1
      = .ok 0 := by decide
  have hafter : (flushCacheToDb .sorted contractDb
      (destroyedOverlay (.counting fun _ => KECCAK256_EMPTY)) (some 5)).storageRef 0xC 1
      = .ok 7 := by decide
  refine ⟨reachable_destroyedOverlay _, hbefore, hafter, fun h => ?_⟩
  have := h.storage 0xC 1
  rw [hbefore, hafter] at this
  exact absurd this (by decide)

theorem flushCacheToDb_answersAs_iff_destroyed :
    (flushCacheToDb .sorted contractDb
        (destroyedOverlay (.counting fun _ => KECCAK256_EMPTY)) (some 5)).AnswersAs contractDb
        (destroyedOverlay (.counting fun _ => KECCAK256_EMPTY))
      ↔ (∀ (a : Address) (s : U256),
          (destroyedOverlay (.counting fun _ => KECCAK256_EMPTY)).Wiped a s →
            contractDb.storageRef a s = .ok 0)
        ∧ ∀ (a : Address) (info : AccountInfo),
            (destroyedOverlay (.counting fun _ => KECCAK256_EMPTY)).basic contractDb a
              = .ok (some info) →
            info.codeHash = 0 ∨ info.codeHash = KECCAK256_EMPTY →
              contractDb.codeByHashRef info.codeHash = [] :=
  flushCacheToDb_answersAs_iff (reachable_destroyedOverlay _) .sorted (some 5)

end EvmState
