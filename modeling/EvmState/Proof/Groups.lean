import EvmState.Proof.World

/-!
# What a group of diffs leaves, cell by cell

The nonce, the balance and the code hash of the record, and each slot, hold what the last
diff on them wrote, and what was there before where there is none.
-/

namespace EvmState

open Std Lists

/-- The record of an account, zeros if there is none. -/
def StateDb.record (db : StateDb) (a : Address) : AccountInfo :=
  match db.getAccount a with
  | .ok (some info) => info
  | _ => .zero

/-- What a diff leaves in the nonce. -/
def StateDiff.nonceWrite (d : StateDiff) : Option U64 :=
  if d.key = some "nonce" then
    d.next.map fun next => (U64.fromStrRadix (hexBody next) 16).getD 0
  else none

def StateDiff.balanceWrite (d : StateDiff) : Option U256 :=
  if d.key = some "balance" then
    d.next.map fun next => (U256.fromStrRadix (hexBody next) 16).getD 0
  else none

/-! ## The fields of the record -/

section Fields

variable {keccak256 : Bytes → B256} (ds : List StateDiff) (info : AccountInfo)

theorem nonce_foldl_setField :
    (ds.foldl (StateDiff.setField keccak256) info).nonce
      = (lastOf StateDiff.nonceWrite ds).getD info.nonce := by
  refine foldl_cell AccountInfo.nonce _ (fun info d => ?_) ds info
  unfold StateDiff.setField StateDiff.nonceWrite
  split
  · simp_all
  · simp_all
  · split <;> simp_all
  · -- no arm sets a field: the key is another one, or the diff has no next value
    rename_i hnonce _ _
    by_cases hk : d.key = some "nonce"
    · cases hn : d.next with
      | none => simp
      | some next => exact absurd hn (hnonce next hk)
    · simp [hk]

theorem balance_foldl_setField :
    (ds.foldl (StateDiff.setField keccak256) info).balance
      = (lastOf StateDiff.balanceWrite ds).getD info.balance := by
  refine foldl_cell AccountInfo.balance _ (fun info d => ?_) ds info
  unfold StateDiff.setField StateDiff.balanceWrite
  split
  · simp_all
  · simp_all
  · split <;> simp_all
  · rename_i _ hbalance _
    by_cases hk : d.key = some "balance"
    · cases hn : d.next with
      | none => simp
      | some next => exact absurd hn (hbalance next hk)
    · simp [hk]

theorem codeHash_foldl_setField :
    (ds.foldl (StateDiff.setField keccak256) info).codeHash
      = (lastOf (fun d => d.code.map keccak256) ds).getD info.codeHash := by
  refine foldl_cell AccountInfo.codeHash _ (fun info d => ?_) ds info
  unfold StateDiff.setField StateDiff.code
  split
  · simp_all
  · simp_all
  · split <;> simp_all
  · rename_i _ _ hcode
    by_cases hk : d.key = some "code"
    · cases hn : d.next with
      | none => simp
      | some next => exact absurd hn (hcode next hk)
    · simp [hk]

end Fields

/-! ## The keys of a group -/

section Keys

variable {keccak256 : Bytes → B256} {σ : HashOrder} {db : StateDb} {block : Block} {b : WriteBatch}

theorem record_of_getAccount {a : Address} {o : Option AccountInfo}
    (h : db.getAccount a = .ok o) : db.record a = o.getD .zero := by
  rw [StateDb.record, h]
  cases o <;> rfl

/-- What the diffs of an address leave of its record. -/
def groupRecord (keccak256 : Bytes → B256) (db : StateDb) (a : Address) (ds : List StateDiff) :
    Option (Option Bytes) :=
  if ds = [] then none
  else if ds.any isDeletion then some none
  else some (some (ds.foldl (StateDiff.setField keccak256) (db.record a)).toBytes)

/-- And of its slots. -/
def groupSlot (s : B256) (ds : List StateDiff) : Option (Option Bytes) :=
  if ds.any isDeletion then none else lastOf (StateDiff.slotVal s) ds

theorem lastVal_diffBatch_account (h : diffBatch keccak256 σ db block = .ok b) (a : Address) :
    b.lastVal (.account a) = groupRecord keccak256 db a (diffsOf block.stateDiffs a) := by
  by_cases ha : diffsOf block.stateDiffs a = []
  · rw [lastVal_diffBatch_none h ha rfl, groupRecord, if_pos ha]
  · obtain ⟨p, hp⟩ := diffBatch_ok_iff.mp ⟨b, h⟩ a ha
    rw [lastVal_diffBatch h ha hp rfl, groupRecord, if_neg ha]
    by_cases hdel : (diffsOf block.stateDiffs a).any isDeletion = true
    · rw [addressBatch, if_pos hdel] at hp
      rw [if_pos hdel, ← Except.ok.inj hp, WriteBatch.lastVal_singleton]
      simp [Write.key, Write.val]
    · have hkept : (diffsOf block.stateDiffs a).any isDeletion = false := by simpa using hdel
      -- the group ended in a batch, so its account was readable
      have hread : ∃ o, db.getAccount a = .ok o := by
        rw [addressBatch, if_neg hdel] at hp
        split at hp
        · rename_i o ho
          exact ⟨o, ho⟩
        · cases hp
      obtain ⟨o, ho⟩ := hread
      rw [if_neg hdel, getAccount_group ho hkept hp, record_of_getAccount ho]

theorem lastVal_flatMap_slotVal (keccak256 : Bytes → B256) (a : Address) (s : B256)
    (ds : List StateDiff) :
    WriteBatch.lastVal (ds.flatMap (diffWrites keccak256 a)) (.slot a s)
      = lastOf (StateDiff.slotVal s) ds := by
  induction ds using List.reverseRecOn with
  | nil => rfl
  | append_singleton ds d ih =>
      rw [List.flatMap_append, List.flatMap_singleton, WriteBatch.lastVal_append, lastOf_concat, ih,
        lastVal_diffWrites_slotVal]

theorem lastVal_diffBatch_slot (h : diffBatch keccak256 σ db block = .ok b) (a : Address)
    (s : B256) : b.lastVal (.slot a s) = groupSlot s (diffsOf block.stateDiffs a) := by
  by_cases ha : diffsOf block.stateDiffs a = []
  · rw [lastVal_diffBatch_none h ha rfl, ha]
    rfl
  · obtain ⟨p, hp⟩ := diffBatch_ok_iff.mp ⟨b, h⟩ a ha
    rw [lastVal_diffBatch h ha hp rfl, groupSlot]
    by_cases hdel : (diffsOf block.stateDiffs a).any isDeletion = true
    · rw [addressBatch, if_pos hdel] at hp
      rw [if_pos hdel, ← Except.ok.inj hp, WriteBatch.lastVal_singleton]
      simp [Write.key]
    · rw [addressBatch, if_neg hdel] at hp
      split at hp
      · -- the record is written after the slots and is a key of its own
        rw [if_neg hdel, ← Except.ok.inj hp, WriteBatch.lastVal_append,
          WriteBatch.lastVal_singleton, if_neg (by simp [Write.key]), Option.none_or,
          foldl_applyDiff_snd, List.nil_append, lastVal_flatMap_slotVal]
      · cases hp

end Keys

end EvmState
