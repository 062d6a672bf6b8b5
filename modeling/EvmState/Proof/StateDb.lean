import EvmState.Lib.Lists
import EvmState.StateDb

/-!
# What reads see after a batch

A read of one kind depends on one key, so each typed read after a commit has
three cases: the batch left a value at the key, deleted it, or never named it.

`WellFormed` is the invariant of a database that was only ever written through
its own operations, `Built.wellFormed`: every key has the shape of its column family
and every value the length its reader expects. Reads of such a database never fail,
and the iterators list exactly what it holds.
-/

namespace EvmState

/-- The lengths the readers insist on. -/
def Key.Fits : Key → Bytes → Prop
  | .account _, v => v.length = AccountInfo.encodedSize
  | .slot _ _, v => v.length = 32
  | .code _, _ => True
  | .headBlock, v => v.length = 8

theorem Write.fits {w : Write} {v : Bytes} (h : w.val = some v) : w.key.Fits v := by
  cases w <;> simp only [Write.val, Option.some.injEq, reduceCtorEq] at h <;>
    subst h <;> simp [Write.key, Key.Fits]

namespace StateDb

/-- Every entry has the shape its table's operations write. -/
def WellFormed (db : StateDb) : Prop :=
  ∀ t kb v, (db.cf t)[kb]? = some v → ∃ k : Key, k.table = t ∧ k.bytes = kb ∧ k.Fits v

theorem wellFormed_empty : WellFormed empty := by
  intro t kb v h
  simp [empty] at h

theorem wellFormed_commit {db : StateDb} (h : db.WellFormed) (b : WriteBatch) :
    (db.commit b).WellFormed := by
  intro t kb v hv
  rw [commit, Tables.run_getElem?] at hv
  cases hl : Tables.lastOp (b.map Write.op) t kb with
  | none =>
      rw [hl] at hv
      exact h t kb v hv
  | some u =>
      obtain ⟨o, ho, h1, h2, h3⟩ := Tables.mem_of_lastOp hl
      obtain ⟨w, _, rfl⟩ := List.mem_map.mp ho
      rw [hl, Option.getD_some] at hv
      exact ⟨w.key, h1, h2, Write.fits (h3.trans hv)⟩

theorem WellFormed.fits {db : StateDb} (h : db.WellFormed) {k : Key} {v : Bytes}
    (hk : db.getCf k = some v) : k.Fits v := by
  obtain ⟨k', h1, h2, h3⟩ := h _ _ _ hk
  rwa [Key.inj h1 h2] at h3

/-- Well-formed databases that agree on every key are the same. -/
theorem ext_getCf {db db' : StateDb} (h : db.WellFormed) (h' : db'.WellFormed)
    (hk : ∀ k, db.getCf k = db'.getCf k) : db = db' := by
  have hcf : db.cf = db'.cf := by
    refine Tables.ext_getElem? fun t kb => ?_
    by_cases hkey : ∃ k : Key, k.table = t ∧ k.bytes = kb
    · obtain ⟨k, rfl, rfl⟩ := hkey
      exact hk k
    · have hnone : ∀ d : StateDb, d.WellFormed → (d.cf t)[kb]? = none := by
        intro d hd
        cases hv : (d.cf t)[kb]? with
        | none => rfl
        | some v =>
            obtain ⟨k, h1, h2, _⟩ := hd t kb v hv
            exact absurd ⟨k, h1, h2⟩ hkey
      rw [hnone db h, hnone db' h']
  cases db
  cases db'
  exact congrArg StateDb.mk hcf

/-- A database that was only ever written through its own operations. -/
inductive Built : StateDb → Prop
  | empty : Built .empty
  | commit {db : StateDb} (b : WriteBatch) : Built db → Built (db.commit b)
  | setAccount {db : StateDb} (a : Address) (info : AccountInfo) :
      Built db → Built (db.setAccount a info)
  | setStorage {db : StateDb} (a : Address) (s : B256) (v : U256) :
      Built db → Built (db.setStorage a s v)
  | setCode {db : StateDb} (h : B256) (b : Bytes) : Built db → Built (db.setCode h b)
  | setHeadBlock {db : StateDb} (n : U64) : Built db → Built (db.setHeadBlock n)
  | deleteAccount {db : StateDb} (a : Address) : Built db → Built (db.deleteAccount a).2
  | deleteStorage {db : StateDb} (a : Address) (s : B256) :
      Built db → Built (db.deleteStorage a s).2

theorem Built.wellFormed {db : StateDb} (h : Built db) : db.WellFormed := by
  induction h with
  | empty => exact wellFormed_empty
  | commit b _ ih => exact wellFormed_commit ih b
  | setAccount a info _ ih => exact wellFormed_commit ih _
  | setStorage a s v _ ih => exact wellFormed_commit ih _
  | setCode h b _ ih => exact wellFormed_commit ih _
  | setHeadBlock n _ ih => exact wellFormed_commit ih _
  | deleteAccount a _ ih =>
      rw [StateDb.deleteAccount]
      split
      · exact wellFormed_commit ih _
      · exact ih
  | deleteStorage a s _ ih =>
      rw [StateDb.deleteStorage]
      split
      · exact wellFormed_commit ih _
      · exact ih

/-! ## Accounts -/

theorem getAccount_eq {db db' : StateDb} {a : Address}
    (h : db.getCf (.account a) = db'.getCf (.account a)) : db.getAccount a = db'.getAccount a := by
  rw [getAccount, getAccount, h]

theorem getAccount_commit_set {db : StateDb} {b : WriteBatch} {a : Address} {i : AccountInfo}
    (h : b.lastVal (.account a) = some (some i.toBytes)) :
    (db.commit b).getAccount a = .ok (some i) := by
  rw [getAccount, getCf_commit, h]
  simp

theorem getAccount_commit_deleted {db : StateDb} {b : WriteBatch} {a : Address}
    (h : b.lastVal (.account a) = some none) : (db.commit b).getAccount a = .ok none := by
  rw [getAccount, getCf_commit, h]
  rfl

theorem getAccount_commit_none {db : StateDb} {b : WriteBatch} {a : Address}
    (h : b.lastVal (.account a) = none) : (db.commit b).getAccount a = db.getAccount a :=
  getAccount_eq (by rw [getCf_commit, h]; rfl)

theorem WellFormed.getAccount_ok {db : StateDb} (h : db.WellFormed) (a : Address) :
    ∃ o, db.getAccount a = .ok o := by
  unfold getAccount
  cases hk : db.getCf (.account a) with
  | none => exact ⟨none, rfl⟩
  | some v =>
      have hlen : v.length = AccountInfo.encodedSize := h.fits hk
      simp only [AccountInfo.fromBytes, hlen, if_true]
      exact ⟨_, rfl⟩

/-! ## Storage -/

theorem getStorage_eq {db db' : StateDb} {a : Address} {s : B256}
    (h : db.getCf (.slot a s) = db'.getCf (.slot a s)) : db.getStorage a s = db'.getStorage a s := by
  rw [getStorage, getStorage, h]

theorem getStorage_commit_set {db : StateDb} {b : WriteBatch} {a : Address} {s : B256} {v : U256}
    (h : b.lastVal (.slot a s) = some (some (beOf 32 v))) :
    (db.commit b).getStorage a s = .ok (some v) := by
  rw [getStorage, getCf_commit, h]
  simp [ofBe_beOf]

theorem getStorage_commit_deleted {db : StateDb} {b : WriteBatch} {a : Address} {s : B256}
    (h : b.lastVal (.slot a s) = some none) : (db.commit b).getStorage a s = .ok none := by
  rw [getStorage, getCf_commit, h]
  rfl

theorem getStorage_commit_none {db : StateDb} {b : WriteBatch} {a : Address} {s : B256}
    (h : b.lastVal (.slot a s) = none) : (db.commit b).getStorage a s = db.getStorage a s :=
  getStorage_eq (by rw [getCf_commit, h]; rfl)

theorem WellFormed.getStorage_ok {db : StateDb} (h : db.WellFormed) (a : Address) (s : B256) :
    ∃ o, db.getStorage a s = .ok o := by
  unfold getStorage
  cases hk : db.getCf (.slot a s) with
  | none => exact ⟨none, rfl⟩
  | some v =>
      have hlen : v.length = 32 := h.fits hk
      exact ⟨_, if_pos hlen⟩

/-- A slot reads as what is stored, or as zero. -/
theorem storageRef_eq_ok {db : StateDb} {a : Address} {s v : U256} :
    db.storageRef a s = .ok v ↔ ∃ o, db.getStorage a s = .ok o ∧ v = o.getD 0 := by
  unfold storageRef
  cases db.getStorage a s with
  | error e => simp
  | ok o => simp [eq_comm]

theorem WellFormed.storageRef_ok {db : StateDb} (h : db.WellFormed) (a : Address) (s : U256) :
    ∃ v, db.storageRef a s = .ok v := by
  obtain ⟨o, ho⟩ := h.getStorage_ok a s
  exact ⟨o.getD 0, by rw [storageRef, ho]⟩

/-! ## Code and head -/

theorem getCode_commit (db : StateDb) (b : WriteBatch) (h : B256) :
    (db.commit b).getCode h = (b.lastVal (.code h)).getD (db.getCode h) := getCf_commit db b _

theorem getHeadBlock_commit_set {db : StateDb} {b : WriteBatch} {n : U64}
    (h : b.lastVal .headBlock = some (some (beOf 8 n))) :
    (db.commit b).getHeadBlock = .ok (some n) := by
  rw [getHeadBlock, getCf_commit, h]
  simp [ofBe_beOf]

theorem getHeadBlock_commit_none {db : StateDb} {b : WriteBatch}
    (h : b.lastVal .headBlock = none) : (db.commit b).getHeadBlock = db.getHeadBlock := by
  rw [getHeadBlock, getHeadBlock, getCf_commit, h]
  rfl

/-- The head is read as it was set. -/
theorem WellFormed.getHeadBlock_ok {db : StateDb} (h : db.WellFormed) :
    ∃ head, db.getHeadBlock = .ok head ∧ db.getCf .headBlock = head.map (beOf 8) := by
  unfold getHeadBlock
  cases hk : db.getCf .headBlock with
  | none => exact ⟨none, rfl, rfl⟩
  | some v =>
      have hlen : v.length = 8 := h.fits hk
      exact ⟨some (ofBe 64 v), if_pos hlen, by rw [Option.map_some, beOf_ofBe (by omega) hlen]⟩

/-! ## What the iterators list -/

theorem mem_table {db : StateDb} {t : TableName} {e : Bytes × Bytes} :
    e ∈ (db.cf t).toList ↔ (db.cf t)[e.1]? = some e.2 :=
  Std.ExtTreeMap.mem_toList_iff_getElem?_eq_some

theorem WellFormed.iterAccounts_ok {db : StateDb} (h : db.WellFormed) :
    ∃ accounts, db.iterAccounts = .ok accounts
      ∧ ∀ a i, (a, i) ∈ accounts ↔ db.getCf (.account a) = some i.toBytes := by
  have hok : ∀ e ∈ (db.cf .accounts).toList.filter (fun e => e.1.length = 20),
      ∃ r, accountEntry e = .ok r := by
    intro e he
    obtain ⟨k, hk, _, hfits⟩ := h _ _ _ (mem_table.mp (List.mem_of_mem_filter he))
    cases k with
    | account a =>
        -- a value of the right length decodes
        have hlen : e.2.length = AccountInfo.encodedSize := hfits
        rw [accountEntry, AccountInfo.fromBytes, if_pos hlen]
        exact ⟨_, rfl⟩
    | slot a s => cases hk
    | code c => cases hk
    | headBlock => cases hk
  obtain ⟨accounts, hacc⟩ := Lists.mapM_ok_of_forall hok
  have hall := Lists.forall₂_of_mapM_ok hacc
  refine ⟨accounts, hacc, fun a i => ⟨fun hmem => ?_, fun hget => ?_⟩⟩
  · obtain ⟨e, he, hr⟩ := Lists.exists_mem_left hall hmem
    rw [List.mem_filter, mem_table, decide_eq_true_eq] at he
    cases hi : AccountInfo.fromBytes e.2 with
    | error err => simp [accountEntry, hi] at hr
    | ok info =>
        simp only [accountEntry, hi, Except.ok.injEq, Prod.mk.injEq] at hr
        obtain ⟨rfl, rfl⟩ := hr
        -- the entry is the one under the key of its address
        rw [AccountInfo.toBytes_of_fromBytes hi, ← he.1, getCf]
        simp only [Key.table, Key.bytes, accountKey]
        rw [beOf_ofBe (by omega) he.2]
  · have he : ((accountKey a, i.toBytes) : Bytes × Bytes)
        ∈ (db.cf .accounts).toList.filter (fun e => e.1.length = 20) := by
      rw [List.mem_filter, mem_table]
      exact ⟨hget, by simp [accountKey]⟩
    obtain ⟨r, hr, hrow⟩ := Lists.exists_mem_right hall he
    simp only [accountEntry, AccountInfo.fromBytes_toBytes, Except.ok.injEq, accountKey,
      ofBe_beOf (show 2 ^ 160 = 256 ^ 20 by omega)] at hrow
    exact hrow ▸ hr

theorem mem_iterStorage {db : StateDb} {a : Address} {s : B256} {v : U256} :
    (a, s, v) ∈ db.iterStorage ↔ db.getCf (.slot a s) = some (beOf 32 v) := by
  rw [iterStorage, List.mem_map]
  constructor
  · intro h
    obtain ⟨e, he, hr⟩ := h
    rw [List.mem_filter, mem_table, decide_eq_true_eq] at he
    obtain ⟨hget, hkey, hval⟩ := he
    simp only [Prod.mk.injEq] at hr
    obtain ⟨rfl, rfl, rfl⟩ := hr
    rw [beOf_ofBe (by omega) hval, ← hget, getCf]
    simp only [Key.table, Key.bytes, storageKey]
    -- the two halves of the key are the address and the slot
    rw [beOf_ofBe (by omega) (by simp [hkey]), beOf_ofBe (by omega) (by simp [hkey]),
      List.take_append_drop]
  · intro hget
    refine ⟨(storageKey a s, beOf 32 v), ?_, ?_⟩
    · rw [List.mem_filter, mem_table]
      exact ⟨hget, by simp [storageKey]⟩
    · simp only [storageKey, Prod.mk.injEq]
      rw [List.take_left' (length_beOf 20 a), List.drop_left' (length_beOf 20 a),
        ofBe_beOf (by omega), ofBe_beOf (by omega), ofBe_beOf (by omega)]
      exact ⟨rfl, rfl, rfl⟩

theorem mem_iterCode {db : StateDb} {h : B256} {b : Bytes} :
    (h, b) ∈ db.iterCode ↔ db.getCf (.code h) = some b := by
  rw [iterCode, List.mem_map]
  constructor
  · intro hx
    obtain ⟨e, he, hr⟩ := hx
    rw [List.mem_filter, mem_table, decide_eq_true_eq] at he
    simp only [Prod.mk.injEq] at hr
    obtain ⟨rfl, rfl⟩ := hr
    rw [← he.1, getCf]
    simp only [Key.table, Key.bytes]
    -- a key of 32 bytes is the one of its hash
    rw [beOf_ofBe (by omega) he.2]
  · intro hget
    refine ⟨(beOf 32 h, b), ?_, ?_⟩
    · rw [List.mem_filter, mem_table]
      exact ⟨hget, by simp⟩
    · rw [ofBe_beOf (by omega)]

end StateDb

end EvmState
