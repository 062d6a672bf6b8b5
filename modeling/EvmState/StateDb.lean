import EvmState.Lib.Tables
import EvmState.Common

/-!
# The state database

Latest EVM state in four column families of byte strings, the way the source lays
them out over RocksDB:

* `accounts`: `[address:20]` to `[nonce:8][balance:32][code_hash:32]`,
* `storage`: `[address:20][slot:32]` to `[value:32]`,
* `code`: `[code_hash:32]` to the bytecode,
* `metadata`: `b"head_block"` to `[block_number:8]`.

Reads decode and can fail on a value of the wrong length. A `WriteBatch` is the
list of writes pushed onto it; `commit` applies them in order and at once, and a
batch that is dropped is simply not used. RocksDB itself is taken to be four
ordered byte maps with atomic in-order batches; where a write to it may fail, the
callers are modelled as stopping between two commits.
-/

namespace EvmState

open Std

/-- The column families. -/
inductive TableName where
  | accounts
  | storage
  | code
  | metadata
deriving DecidableEq, Repr

/-- `evm_state_db::Error`, as far as reads raise it. -/
inductive DbError where
  | accountDecode (e : AccountDecodeError)
  | invalidStorageValue (len : Nat)
  | invalidHeadBlock (len : Nat)
deriving DecidableEq, Repr

/-- `META_KEY_HEAD_BLOCK`, the bytes of `head_block`. -/
def META_KEY_HEAD_BLOCK : Bytes := [104, 101, 97, 100, 95, 98, 108, 111, 99, 107]

/-- What a write or a point read is about. -/
inductive Key where
  | account (a : Address)
  | slot (a : Address) (s : B256)
  | code (h : B256)
  | headBlock
deriving DecidableEq, Repr

def Key.table : Key → TableName
  | .account _ => .accounts
  | .slot _ _ => .storage
  | .code _ => .code
  | .headBlock => .metadata

def Key.bytes : Key → Bytes
  | .account a => accountKey a
  | .slot a s => storageKey a s
  | .code h => beOf 32 h
  | .headBlock => META_KEY_HEAD_BLOCK

/-- No operation on one key is visible through another. -/
theorem Key.inj {k k' : Key} (ht : k.table = k'.table) (hb : k.bytes = k'.bytes) : k = k' := by
  cases k <;> cases k' <;> simp only [Key.table, Key.bytes, reduceCtorEq] at ht hb ⊢
  · rw [accountKey_inj hb]
  · obtain ⟨h1, h2⟩ := storageKey_inj hb
    rw [h1, h2]
  · rw [beOf_inj (by omega) hb]

/-- The operations of `StateDb` and of `WriteBatch` that write. -/
inductive Write where
  | setAccount (a : Address) (info : AccountInfo)
  | setStorage (a : Address) (s : B256) (value : U256)
  | setCode (h : B256) (bytecode : Bytes)
  | setHeadBlock (n : U64)
  | deleteAccount (a : Address)
  | deleteStorage (a : Address) (s : B256)
deriving DecidableEq, Repr

def Write.key : Write → Key
  | .setAccount a _ => .account a
  | .setStorage a s _ => .slot a s
  | .setCode h _ => .code h
  | .setHeadBlock _ => .headBlock
  | .deleteAccount a => .account a
  | .deleteStorage a s => .slot a s

/-- The bytes put, or `none` for a delete. -/
def Write.val : Write → Option Bytes
  | .setAccount _ info => some info.toBytes
  | .setStorage _ _ v => some (beOf 32 v)
  | .setCode _ b => some b
  | .setHeadBlock n => some (beOf 8 n)
  | .deleteAccount _ => none
  | .deleteStorage _ _ => none

/-- `put_cf` or `delete_cf`. -/
def Write.op (w : Write) : Tables.Op TableName Bytes Bytes := ⟨w.key.table, w.key.bytes, w.val⟩

/-- Writes buffered in memory, in the order they were pushed. -/
abbrev WriteBatch := List Write

/-- The database: one ordered byte map per column family. -/
structure StateDb where
  cf : Tables TableName Bytes Bytes

namespace StateDb

/-- A freshly created database. -/
def empty : StateDb := ⟨fun _ => ∅⟩

/-- `get_cf`. -/
def getCf (db : StateDb) (k : Key) : Option Bytes := (db.cf k.table)[k.bytes]?

/-- `WriteBatch::commit`: every write of the batch, in order. -/
def commit (db : StateDb) (b : WriteBatch) : StateDb := ⟨db.cf.run (b.map Write.op)⟩

/-! ## Reads -/

def getAccount (db : StateDb) (a : Address) : Except DbError (Option AccountInfo) :=
  match db.getCf (.account a) with
  | some bytes =>
      match AccountInfo.fromBytes bytes with
      | .ok info => .ok (some info)
      | .error e => .error (.accountDecode e)
  | none => .ok none

def getStorage (db : StateDb) (a : Address) (s : B256) : Except DbError (Option U256) :=
  match db.getCf (.slot a s) with
  | some bytes =>
      if bytes.length = 32 then .ok (some (ofBe 256 bytes))
      else .error (.invalidStorageValue bytes.length)
  | none => .ok none

def getCode (db : StateDb) (h : B256) : Option Bytes := db.getCf (.code h)

def getHeadBlock (db : StateDb) : Except DbError (Option U64) :=
  match db.getCf .headBlock with
  | some bytes =>
      if bytes.length = 8 then .ok (some (ofBe 64 bytes))
      else .error (.invalidHeadBlock bytes.length)
  | none => .ok none

/-! ## Single writes -/

def setAccount (db : StateDb) (a : Address) (info : AccountInfo) : StateDb :=
  db.commit [.setAccount a info]

def setStorage (db : StateDb) (a : Address) (s : B256) (v : U256) : StateDb :=
  db.commit [.setStorage a s v]

def setCode (db : StateDb) (h : B256) (b : Bytes) : StateDb := db.commit [.setCode h b]

def setHeadBlock (db : StateDb) (n : U64) : StateDb := db.commit [.setHeadBlock n]

/-- Deletes only what is there, and says whether it was. -/
def deleteAccount (db : StateDb) (a : Address) : Bool × StateDb :=
  if (db.getCf (.account a)).isSome then (true, db.commit [.deleteAccount a]) else (false, db)

def deleteStorage (db : StateDb) (a : Address) (s : B256) : Bool × StateDb :=
  if (db.getCf (.slot a s)).isSome then (true, db.commit [.deleteStorage a s]) else (false, db)

end StateDb

/-! ## Deletes in a batch -/

namespace WriteBatch

/-- The delete is pushed in any case; the answer is about the database the batch writes to. -/
def deleteAccount (b : WriteBatch) (db : StateDb) (a : Address) : Bool × WriteBatch :=
  ((db.getCf (.account a)).isSome, b ++ [.deleteAccount a])

def deleteStorage (b : WriteBatch) (db : StateDb) (a : Address) (s : B256) : Bool × WriteBatch :=
  ((db.getCf (.slot a s)).isSome, b ++ [.deleteStorage a s])

end WriteBatch

namespace StateDb

/-! ## Iteration -/

/-- An entry of the `accounts` table, decoded. -/
def accountEntry (e : Bytes × Bytes) : Except DbError (Address × AccountInfo) :=
  match AccountInfo.fromBytes e.2 with
  | .ok info => .ok (ofBe 160 e.1, info)
  | .error err => .error (.accountDecode err)

/-- All accounts in key order; keys of the wrong length are skipped. -/
def iterAccounts (db : StateDb) : Except DbError (List (Address × AccountInfo)) :=
  ((db.cf .accounts).toList.filter (fun e => e.1.length = 20)).mapM accountEntry

/-- All storage entries in key order; keys or values of the wrong length are skipped. -/
def iterStorage (db : StateDb) : List (Address × B256 × U256) :=
  ((db.cf .storage).toList.filter (fun e => e.1.length = 52 ∧ e.2.length = 32)).map fun e =>
    (ofBe 160 (e.1.take 20), ofBe 256 (e.1.drop 20), ofBe 256 e.2)

/-- All code entries in key order; keys of the wrong length are skipped. -/
def iterCode (db : StateDb) : List (B256 × Bytes) :=
  ((db.cf .code).toList.filter (fun e => e.1.length = 32)).map fun e => (ofBe 256 e.1, e.2)

/-! ## `DatabaseRef` -/

/-- `basic_ref`; the code itself is loaded by hash when it is needed. -/
def basicRef (db : StateDb) (a : Address) : Except DbError (Option AccountInfo) := db.getAccount a

/-- `code_by_hash_ref`, as the raw bytes of the `Bytecode`; a missing entry is empty code. -/
def codeByHashRef (db : StateDb) (h : B256) : Bytes := (db.getCode h).getD []

/-- `storage_ref`; a missing slot is zero. -/
def storageRef (db : StateDb) (a : Address) (index : U256) : Except DbError U256 :=
  match db.getStorage a index with
  | .ok v => .ok (v.getD 0)
  | .error e => .error e

end StateDb

/-! ## What a batch leaves at a key -/

namespace WriteBatch

/-- The last value a batch writes at a key: `none` if it never names the key. -/
def lastVal (b : WriteBatch) (k : Key) : Option (Option Bytes) :=
  Tables.lastOp (b.map Write.op) k.table k.bytes

@[simp] theorem lastVal_nil (k : Key) : lastVal [] k = none := rfl

theorem lastVal_append (b c : WriteBatch) (k : Key) :
    lastVal (b ++ c) k = (lastVal c k).or (lastVal b k) := by
  rw [lastVal, List.map_append, Tables.lastOp_append]
  rfl

theorem lastVal_singleton (w : Write) (k : Key) :
    lastVal [w] k = if w.key = k then some w.val else none := by
  rw [lastVal, List.map_singleton, Tables.lastOp_singleton]
  by_cases h : w.key = k
  · subst h
    simp [Write.op]
  · rw [if_neg h, if_neg]
    exact fun hk => h (Key.inj hk.1 hk.2)

theorem lastVal_eq_none_iff {b : WriteBatch} {k : Key} :
    lastVal b k = none ↔ ∀ w ∈ b, w.key ≠ k := by
  rw [lastVal, Tables.lastOp_eq_none_iff, Tables.Names]
  constructor
  · intro h w hw hk
    subst hk
    exact h ⟨w.op, List.mem_map_of_mem hw, rfl, rfl⟩
  · intro h hx
    obtain ⟨o, ho, h1, h2⟩ := hx
    obtain ⟨w, hw, rfl⟩ := List.mem_map.mp ho
    exact h w hw (Key.inj h1 h2)

theorem mem_of_lastVal {b : WriteBatch} {k : Key} {v : Option Bytes}
    (h : lastVal b k = some v) : ∃ w ∈ b, w.key = k ∧ w.val = v := by
  obtain ⟨o, ho, h1, h2, h3⟩ := Tables.mem_of_lastOp h
  obtain ⟨w, hw, rfl⟩ := List.mem_map.mp ho
  exact ⟨w, hw, Key.inj h1 h2, h3⟩

/-- If the writes to a key all carry one value, that value is left there. -/
theorem lastVal_eq_of_agree {b : WriteBatch} {k : Key} {v : Option Bytes} {w : Write}
    (hw : w ∈ b) (hk : w.key = k) (h : ∀ w' ∈ b, w'.key = k → w'.val = v) :
    lastVal b k = some v := by
  cases hl : lastVal b k with
  | none => exact absurd hk (lastVal_eq_none_iff.mp hl w hw)
  | some u =>
      obtain ⟨w', hw', hk', rfl⟩ := mem_of_lastVal hl
      rw [h w' hw' hk']

/--
A batch leaves what `F` says if each of its writes carries `F`'s value and every
key `F` speaks of is written. The order of the batch plays no part.
-/
theorem lastVal_eq_of_spec {b : WriteBatch} {F : Key → Option (Option Bytes)}
    (hval : ∀ w ∈ b, F w.key = some w.val)
    (hkey : ∀ k v, F k = some v → ∃ w ∈ b, w.key = k) (k : Key) : lastVal b k = F k := by
  cases hF : F k with
  | none =>
      refine lastVal_eq_none_iff.mpr fun w hw hk => ?_
      have := hval w hw
      rw [hk, hF] at this
      cases this
  | some v =>
      obtain ⟨w, hw, hk⟩ := hkey k v hF
      refine lastVal_eq_of_agree hw hk fun w' hw' hk' => ?_
      have := hval w' hw'
      rw [hk', hF] at this
      exact (Option.some.inj this).symm

/-- Batches with the same writes to a key leave the same there if these agree. -/
theorem lastVal_congr_of_mem {b c : WriteBatch} {k : Key}
    (hmem : ∀ w, w.key = k → (w ∈ b ↔ w ∈ c))
    (hagree : ∀ w ∈ b, ∀ w' ∈ b, w.key = k → w'.key = k → w.val = w'.val) :
    lastVal b k = lastVal c k := by
  cases hl : lastVal b k with
  | none =>
      refine (lastVal_eq_none_iff.mpr fun w hw hk => ?_).symm
      exact lastVal_eq_none_iff.mp hl w ((hmem w hk).mpr hw) hk
  | some v =>
      obtain ⟨w, hw, hk, rfl⟩ := mem_of_lastVal hl
      refine (lastVal_eq_of_agree ((hmem w hk).mp hw) hk fun w' hw' hk' => ?_).symm
      exact hagree w' ((hmem w' hk').mpr hw') w hw hk' hk

/-- One part decides a key that the other parts never name. -/
theorem lastVal_flatten {bs : List WriteBatch} {b : WriteBatch} {k : Key} (hb : b ∈ bs)
    (h : ∀ b' ∈ bs, b' = b ∨ lastVal b' k = none) : lastVal bs.flatten k = lastVal b k := by
  induction bs with
  | nil => cases hb
  | cons c bs ih =>
      rw [List.flatten_cons, lastVal_append]
      by_cases hmem : b ∈ bs
      · rw [ih hmem fun b' hb' => h b' (List.mem_cons_of_mem c hb')]
        rcases h c List.mem_cons_self with rfl | hc
        · exact Option.or_self
        · rw [hc, Option.or_none]
      · obtain rfl : b = c := (List.mem_cons.mp hb).resolve_right hmem
        have hrest : lastVal bs.flatten k = none := by
          refine lastVal_eq_none_iff.mpr fun w hw => ?_
          obtain ⟨b', hb', hw⟩ := List.mem_flatten.mp hw
          rcases h b' (List.mem_cons_of_mem b hb') with rfl | hn
          · exact absurd hb' hmem
          · exact lastVal_eq_none_iff.mp hn w hw
        rw [hrest, Option.none_or]

end WriteBatch

namespace StateDb

/-- A read after a commit is what the batch left at the key, or what was there before. -/
theorem getCf_commit (db : StateDb) (b : WriteBatch) (k : Key) :
    (db.commit b).getCf k = (b.lastVal k).getD (db.getCf k) :=
  Tables.run_getElem? db.cf (b.map Write.op) k.table k.bytes

theorem commit_nil (db : StateDb) : db.commit [] = db := rfl

theorem commit_append (db : StateDb) (b c : WriteBatch) :
    db.commit (b ++ c) = (db.commit b).commit c := by
  simp [commit, Tables.run_append]

/-- Batches do the same exactly if they leave the same at every key. -/
theorem commit_eq_iff (db : StateDb) {b c : WriteBatch} :
    db.commit b = db.commit c
      ↔ ∀ k : Key, (b.lastVal k).getD (db.getCf k) = (c.lastVal k).getD (db.getCf k) := by
  constructor
  · intro h k
    rw [← getCf_commit, ← getCf_commit, h]
  · intro h
    refine congrArg StateDb.mk (Tables.ext_getElem? fun t kb => ?_)
    rw [Tables.run_getElem?, Tables.run_getElem?]
    -- a key no batch could have written is named by neither
    by_cases hk : ∃ key : Key, key.table = t ∧ key.bytes = kb
    · obtain ⟨key, rfl, rfl⟩ := hk
      exact h key
    · have hnone : ∀ b : WriteBatch, Tables.lastOp (b.map Write.op) t kb = none := by
        intro b
        refine Tables.lastOp_eq_none_iff.mpr ?_
        rintro ⟨o, ho, h1, h2⟩
        obtain ⟨w, _, rfl⟩ := List.mem_map.mp ho
        exact hk ⟨w.key, h1, h2⟩
      rw [hnone, hnone]

/-- Batches that leave the same values do the same. -/
theorem commit_congr (db : StateDb) {b c : WriteBatch}
    (h : ∀ k : Key, b.lastVal k = c.lastVal k) : db.commit b = db.commit c :=
  (commit_eq_iff db).mpr fun k => by rw [h k]

/-- Two orders of one batch do the same if the writes to each key carry one value. -/
theorem commit_perm (db : StateDb) {b c : WriteBatch} (hp : b.Perm c)
    (h : ∀ w ∈ b, ∀ w' ∈ b, w.key = w'.key → w.val = w'.val) : db.commit b = db.commit c := by
  refine congrArg StateDb.mk (Tables.run_perm db.cf (hp.map Write.op) ?_)
  intro o ho o' ho' ht hk
  obtain ⟨w, hw, rfl⟩ := List.mem_map.mp ho
  obtain ⟨w', hw', rfl⟩ := List.mem_map.mp ho'
  exact h w hw w' hw' (Key.inj ht hk)

/-- A batch hides an earlier one that names no other keys. -/
theorem commit_absorb (db : StateDb) {b c : WriteBatch}
    (h : ∀ w ∈ b, ∃ w' ∈ c, w'.key = w.key) : (db.commit b).commit c = db.commit c := by
  refine congrArg StateDb.mk (Tables.run_absorb db.cf ?_)
  intro o ho
  obtain ⟨w, hw, rfl⟩ := List.mem_map.mp ho
  obtain ⟨w', hw', hk⟩ := h w hw
  exact ⟨w'.op, List.mem_map_of_mem hw', by simp [Write.op, hk], by simp [Write.op, hk]⟩

end StateDb

/-! ## Code -/

/-- Every hash in use is filed, and what is filed has the hash it is filed under. -/
structure StateDb.CodeSound (keccak256 : Bytes → B256) (db : StateDb) : Prop where
  hashes : ∀ a info, db.getAccount a = .ok (some info) →
    info.codeHash = 0 ∨ info.codeHash = KECCAK256_EMPTY ∨ (db.getCode info.codeHash).isSome
  filed : ∀ h raw, db.getCode h = some raw → keccak256 raw = h

end EvmState
