import EvmState.Proof.Groups

/-!
# Malformed diffs

A diff is malformed when its key names nothing or its new value is not written as what
the key names; numbers and bytes are in hexadecimal, whatever the parsers of the replayer
make of other text. Most code that does not decode and keys that name nothing are passed
over, but a number that does not parse counts as zero, some text that is no number is
read as one, and what a deletion carries is not looked at. `malformed_ignored_iff` says
when a block leaves the database it would leave without its malformed diffs.
-/

namespace EvmState

open Std Lists

/-! ## The property -/

/-- A number in hexadecimal that fits: digits behind at most one marker, at least one of them. -/
def hexNumber (n : Nat) (s : String) : Option (BitVec n) :=
  (Radix.numeral 16 (hexBody s)).bind (fits n)

/-- Bytes in hexadecimal: pairs of digits behind at most one marker. -/
def hexBytes (s : String) : Option Bytes := Radix.decodeHex (hexBody s)

/-- A slot has all of its digits. -/
def hexSlot (s : String) : Option B256 :=
  if (hexBody s).length = 64 then hexNumber 256 s else none

/-- The key names something, and the new value, if there is one, is written as that. -/
def StateDiff.wellFormed (d : StateDiff) : Bool :=
  match d.key with
  | some "nonce" => d.next.all fun next => (hexNumber 64 next).isSome
  | some "balance" => d.next.all fun next => (hexNumber 256 next).isSome
  | some "code" => d.next.all fun next => (hexBytes next).isSome
  | some slotHex =>
      (hexSlot slotHex).isSome && d.next.all fun next => (hexNumber 256 next).isSome
  | none => false

/-- The block without its malformed diffs. -/
def Block.wellFormed (block : Block) : Block :=
  { block with stateDiffs := block.stateDiffs.filter StateDiff.wellFormed }

/-- Malformed diffs are as good as not there, or nothing is written. -/
def IgnoresMalformed (keccak256 : Bytes → B256) (σ : HashOrder) (db : StateDb) (block : Block) :
    Prop :=
  ∀ db', applyStateDiffs keccak256 σ db block = .ok db' →
    applyStateDiffs keccak256 σ db block.wellFormed = .ok db'

/-! ## The condition -/

/-- Every account that is diffed and not deleted decodes. -/
def DiffsReadable (db : StateDb) (diffs : List StateDiff) : Prop :=
  ∀ a, diffsOf diffs a ≠ [] → (diffsOf diffs a).any isDeletion = false →
    ∃ o, db.getAccount a = .ok o

/-- If the last diff to write the cell is malformed, it writes what is there without it. -/
def CellKept {β : Type} (f : StateDiff → Option β) (ds : List StateDiff) (z : β) : Prop :=
  ∀ d, lastWriter f ds = some d → d.wellFormed = false →
    f d = some ((lastOf f (ds.filter StateDiff.wellFormed)).getD z)

/--
The groups whose malformed diffs do no harm. A deletion among them is well-formed, or
the malformed diffs are alone and there is no such account. Without a deletion the
account is there or has a well-formed diff too, and where a malformed diff is the last on
the nonce, the balance, the code or a slot, what it leaves (mostly a zero, or nothing where
a slot is removed) is there without it.
-/
def HarmlessGroup (keccak256 : Bytes → B256) (db : StateDb) (a : Address) (ds : List StateDiff) :
    Prop :=
  if ds.any isDeletion then
    (ds.filter StateDiff.wellFormed).any isDeletion = true
      ∨ ds.filter StateDiff.wellFormed = [] ∧ db.getCf (.account a) = none
  else
    (ds.filter StateDiff.wellFormed = [] → db.getCf (.account a) ≠ none)
      ∧ CellKept StateDiff.nonceWrite ds (db.record a).nonce
      ∧ CellKept StateDiff.balanceWrite ds (db.record a).balance
      ∧ CellKept (fun d => d.code.map keccak256) ds (db.record a).codeHash
      ∧ ∀ s, CellKept (StateDiff.slotVal s) ds (db.getCf (.slot a s))

/-- The code is one that the block files: a diff sets it, of an account that is not deleted. -/
def Block.Files (block : Block) (raw : Bytes) : Prop :=
  ∃ a, (diffsOf block.stateDiffs a).any isDeletion = false
    ∧ ∃ d ∈ diffsOf block.stateDiffs a, d.code = some raw

/-- Every code that the block files is filed without its malformed diffs, or is there. -/
def HarmlessCodes (keccak256 : Bytes → B256) (db : StateDb) (block : Block) : Prop :=
  ∀ raw, block.Files raw → block.wellFormed.Files raw ∨ db.getCf (.code (keccak256 raw)) = some raw

/-! ## The record of a group -/

/-- The record is the same without the malformed diffs exactly if its fields are. -/
theorem foldl_filter_iff (keccak256 : Bytes → B256) (ds : List StateDiff) (info : AccountInfo) :
    (ds.filter StateDiff.wellFormed).foldl (StateDiff.setField keccak256) info
        = ds.foldl (StateDiff.setField keccak256) info
      ↔ CellKept StateDiff.nonceWrite ds info.nonce
        ∧ CellKept StateDiff.balanceWrite ds info.balance
        ∧ CellKept (fun d => d.code.map keccak256) ds info.codeHash := by
  have hfields : ∀ x y : AccountInfo,
      x = y ↔ x.nonce = y.nonce ∧ x.balance = y.balance ∧ x.codeHash = y.codeHash := by
    intro x y
    cases x
    cases y
    simp
  rw [hfields, nonce_foldl_setField, nonce_foldl_setField, balance_foldl_setField,
    balance_foldl_setField, codeHash_foldl_setField, codeHash_foldl_setField, lastOf_filter_iff,
    lastOf_filter_iff, lastOf_filter_iff]
  rfl

/-! ## What a group leaves -/

section Group

variable {keccak256 : Bytes → B256} {σ : HashOrder} {db : StateDb} {block : Block} {b : WriteBatch}

/-- The stored record, when it decodes. -/
theorem getCf_account_iff {a : Address} {o : Option AccountInfo} (h : db.getAccount a = .ok o)
    (info : AccountInfo) :
    db.getCf (.account a) = some info.toBytes
      ↔ db.getCf (.account a) ≠ none ∧ db.record a = info := by
  rw [record_of_getAccount h]
  rw [StateDb.getAccount] at h
  cases hcf : db.getCf (.account a) with
  | none => simp
  | some v =>
      rw [hcf] at h
      dsimp only at h
      cases hv : AccountInfo.fromBytes v with
      | error e => rw [hv] at h; cases h
      | ok stored =>
          rw [hv] at h
          cases h
          -- the record decodes, so its bytes are those of what it decodes to
          have hstored : v = stored.toBytes := (AccountInfo.toBytes_of_fromBytes hv).symm
          rw [hstored, Option.some.injEq, Option.getD_some]
          constructor
          · intro heq
            exact ⟨by simp, AccountInfo.toBytes_inj heq⟩
          · rintro ⟨_, rfl⟩
            rfl

/-- The codes a batch files are those of the block. -/
theorem setCode_mem_diffBatch_iff (h : diffBatch keccak256 σ db block = .ok b) {w : Write}
    {hash : B256} (hk : w.key = .code hash) :
    w ∈ b ↔ ∃ raw, block.Files raw ∧ w = .setCode (keccak256 raw) raw := by
  constructor
  · intro hw
    obtain ⟨_, _, _, raw, _, rfl⟩ := mem_diffBatch_code h hw hk
    exact ⟨raw, ((setCode_mem_diffBatch h).mp hw).2, rfl⟩
  · rintro ⟨raw, hfiles, rfl⟩
    exact (setCode_mem_diffBatch h).mpr ⟨rfl, hfiles⟩

/-- Of the codes that a block files, no two share a hash. -/
theorem NoCollision.eq_of_files (hnc : NoCollision keccak256 block) {raw raw' : Bytes}
    (h : block.Files raw) (h' : block.Files raw') (heq : keccak256 raw = keccak256 raw') :
    raw = raw' := by
  obtain ⟨a, _, d, hd, hraw⟩ := h
  obtain ⟨a', _, d', hd', hraw'⟩ := h'
  exact hnc d (List.mem_of_mem_filter hd) d' (List.mem_of_mem_filter hd') raw raw' hraw hraw' heq

/-- What a block files is found under its hash. -/
theorem lastVal_of_files (hnc : NoCollision keccak256 block)
    (h : diffBatch keccak256 σ db block = .ok b) {raw : Bytes} (hraw : block.Files raw) :
    b.lastVal (.code (keccak256 raw)) = some (some raw) := by
  have hmem := (setCode_mem_diffBatch_iff h rfl).mpr ⟨raw, hraw, rfl⟩
  refine WriteBatch.lastVal_eq_of_agree hmem rfl fun w hw hk => ?_
  obtain ⟨raw', hraw', rfl⟩ := (setCode_mem_diffBatch_iff h hk).mp hw
  rw [hnc.eq_of_files hraw hraw' (Key.code.inj hk).symm]
  rfl

theorem lastVal_of_not_files (h : diffBatch keccak256 σ db block = .ok b) {hash : B256}
    (hnone : ∀ raw, block.Files raw → keccak256 raw ≠ hash) : b.lastVal (.code hash) = none := by
  refine WriteBatch.lastVal_eq_none_iff.mpr fun w hw hk => ?_
  obtain ⟨raw, hraw, rfl⟩ := (setCode_mem_diffBatch_iff h hk).mp hw
  exact hnone raw hraw (Key.code.inj hk)

end Group

/-! ## The two batches -/

section Both

variable {keccak256 : Bytes → B256} {σ : HashOrder} {db : StateDb} {block : Block}

theorem diffsOf_wellFormed (block : Block) (a : Address) :
    diffsOf block.wellFormed.stateDiffs a
      = (diffsOf block.stateDiffs a).filter StateDiff.wellFormed := by
  rw [diffsOf, diffsOf, Block.wellFormed, List.filter_filter, List.filter_filter]
  refine List.filter_congr fun d _ => Bool.and_comm ..

/-- A group without a deletion has none among its well-formed diffs. -/
theorem isDeletion_filter {ds : List StateDiff} (h : ds.any isDeletion = false) :
    (ds.filter StateDiff.wellFormed).any isDeletion = false := by
  rw [List.any_eq_false] at h ⊢
  exact fun d hd => h d (List.mem_of_mem_filter hd)

/-- The deletions of a harmless group are seen, as long as something is left of it. -/
theorem HarmlessGroup.isDeletion {a : Address} {ds : List StateDiff}
    (h : HarmlessGroup keccak256 db a ds)
    (hne : ds.filter StateDiff.wellFormed ≠ [])
    (hkeep : (ds.filter StateDiff.wellFormed).any isDeletion = false) :
    ds.any isDeletion = false := by
  by_contra hdel
  rw [HarmlessGroup, if_pos (by simpa using hdel)] at h
  rcases h with hold | ⟨hnil, _⟩
  · rw [hold] at hkeep
    cases hkeep
  · exact hne hnil

variable (keccak256) in
/-- A group leaves what its well-formed diffs leave exactly if it is harmless. -/
theorem group_same_iff {a : Address} {ds : List StateDiff} (hne : ds ≠ [])
    (hread : ds.any isDeletion = false → ∃ o, db.getAccount a = .ok o) :
    ((groupRecord keccak256 db a ds).getD (db.getCf (.account a))
          = (groupRecord keccak256 db a (ds.filter StateDiff.wellFormed)).getD
              (db.getCf (.account a))
        ∧ ∀ s, (groupSlot s ds).getD (db.getCf (.slot a s))
          = (groupSlot s (ds.filter StateDiff.wellFormed)).getD (db.getCf (.slot a s)))
      ↔ HarmlessGroup keccak256 db a ds := by
  rw [HarmlessGroup, groupRecord, if_neg hne]
  by_cases hdel : ds.any isDeletion = true
  · rw [if_pos hdel, if_pos hdel, Option.getD_some]
    -- the record is deleted: without the malformed diffs too, or there was none
    by_cases hnil : ds.filter StateDiff.wellFormed = []
    · simp [groupRecord, groupSlot, hdel, hnil, eq_comm]
    · by_cases hkeep : (ds.filter StateDiff.wellFormed).any isDeletion = true
      · simp only [groupRecord, groupSlot, hdel, hnil, hkeep, if_true, if_false, true_or,
          Option.getD_some, Option.getD_none, true_and, implies_true]
      · -- the well-formed diffs leave a record
        simp only [groupRecord, hnil, hkeep, if_false, Option.getD_some, reduceCtorEq, false_and,
          or_self]
  · -- no deletion: the record and the slots are compared cell by cell
    have hkept : ds.any isDeletion = false := by simpa using hdel
    have hkeep : (ds.filter StateDiff.wellFormed).any isDeletion = false :=
      isDeletion_filter hkept
    obtain ⟨o, ho⟩ := hread hkept
    have hcells : ∀ P N B C S : Prop, P ∧ N ∧ B ∧ C ∧ S ↔ (P ∧ N ∧ B ∧ C) ∧ S := by
      intro P N B C S
      simp only [and_assoc]
    rw [if_neg hdel, if_neg hdel, Option.getD_some, hcells]
    refine and_congr ?_ (forall_congr' fun s => ?_)
    · rw [← foldl_filter_iff keccak256]
      by_cases hnil : ds.filter StateDiff.wellFormed = []
      · rw [groupRecord, if_pos hnil, Option.getD_none, hnil, List.foldl_nil, eq_comm,
          getCf_account_iff ho]
        simp
      · rw [groupRecord, if_neg hnil, if_neg (by simp [hkeep]), Option.getD_some,
          Option.some.injEq]
        constructor
        · intro h
          exact ⟨fun h' => absurd h' hnil, (AccountInfo.toBytes_inj h).symm⟩
        · rintro ⟨_, h⟩
          rw [h]
    · rw [groupSlot, groupSlot, if_neg hdel, if_neg (by simp [hkeep]), eq_comm, lastOf_filter_iff]
      rfl

/-- The diffs are applied exactly if their accounts are readable. -/
theorem diffBatch_ok_iff_readable :
    (∃ b, diffBatch keccak256 σ db block = .ok b) ↔ DiffsReadable db block.stateDiffs := by
  rw [diffBatch_ok_iff]
  refine forall_congr' fun a => imp_congr_right fun _ => ?_
  rw [addressBatch]
  by_cases hdel : (diffsOf block.stateDiffs a).any isDeletion = true
  · simp [hdel]
  · rw [if_neg hdel]
    cases db.getAccount a <;> simp [hdel]

/-- The other diffs of a harmless block can be applied too. -/
theorem readable_wellFormed (hread : DiffsReadable db block.stateDiffs)
    (hall : ∀ a, diffsOf block.stateDiffs a ≠ [] →
      HarmlessGroup keccak256 db a (diffsOf block.stateDiffs a)) :
    DiffsReadable db block.wellFormed.stateDiffs := by
  intro a hne hdel
  rw [diffsOf_wellFormed] at hne hdel
  have hds : diffsOf block.stateDiffs a ≠ [] := fun h => hne (by rw [h]; rfl)
  exact hread a hds ((hall a hds).isDeletion hne hdel)

theorem noCollision_wellFormed (hnc : NoCollision keccak256 block) :
    NoCollision keccak256 block.wellFormed := fun d hd d' hd' =>
  hnc d (List.mem_of_mem_filter hd) d' (List.mem_of_mem_filter hd')

/-- A harmless block files what its well-formed diffs file. -/
theorem files_of_wellFormed
    (hall : ∀ a, diffsOf block.stateDiffs a ≠ [] →
      HarmlessGroup keccak256 db a (diffsOf block.stateDiffs a)) {raw : Bytes}
    (h : block.wellFormed.Files raw) : block.Files raw := by
  obtain ⟨a, hdel, d, hd, hraw⟩ := h
  rw [diffsOf_wellFormed] at hdel hd
  have hmem : d ∈ diffsOf block.stateDiffs a := List.mem_of_mem_filter hd
  have hharm := hall a (List.ne_nil_of_mem hmem)
  exact ⟨a, hharm.isDeletion (List.ne_nil_of_mem hd) hdel, d, hmem, hraw⟩

/-- Both batches leave the same codes exactly if the malformed diffs add none. -/
theorem codes_same_iff {b b' : WriteBatch} (hnc : NoCollision keccak256 block)
    (hb : diffBatch keccak256 σ db block = .ok b)
    (hb' : diffBatch keccak256 σ db block.wellFormed = .ok b')
    (hall : ∀ a, diffsOf block.stateDiffs a ≠ [] →
      HarmlessGroup keccak256 db a (diffsOf block.stateDiffs a)) :
    (∀ hash, (b.lastVal (.code hash)).getD (db.getCf (.code hash))
        = (b'.lastVal (.code hash)).getD (db.getCf (.code hash)))
      ↔ HarmlessCodes keccak256 db block := by
  have hnc' : NoCollision keccak256 block.wellFormed := noCollision_wellFormed hnc
  -- of two codes with a hash, one that only malformed diffs set has no other beside it
  have hnone : ∀ raw, block.Files raw → ¬ block.wellFormed.Files raw →
      b'.lastVal (.code (keccak256 raw)) = none := by
    intro raw hraw hnot
    refine lastVal_of_not_files hb' fun raw' hraw' heq => hnot ?_
    rwa [hnc.eq_of_files hraw (files_of_wellFormed hall hraw') heq.symm]
  constructor
  · intro h raw hraw
    by_cases hkept : block.wellFormed.Files raw
    · exact .inl hkept
    · have hhash := h (keccak256 raw)
      rw [lastVal_of_files hnc hb hraw, hnone raw hraw hkept] at hhash
      exact .inr hhash.symm
  · intro h hash
    by_cases hfiled : ∃ raw, block.Files raw ∧ keccak256 raw = hash
    · obtain ⟨raw, hraw, rfl⟩ := hfiled
      rw [lastVal_of_files hnc hb hraw]
      by_cases hkept : block.wellFormed.Files raw
      · rw [lastVal_of_files hnc' hb' hkept]
      · rw [hnone raw hraw hkept, Option.getD_none, (h raw hraw).resolve_left hkept,
          Option.getD_some]
    · rw [lastVal_of_not_files hb fun raw hraw heq => hfiled ⟨raw, hraw, heq⟩,
        lastVal_of_not_files hb' fun raw hraw heq =>
          hfiled ⟨raw, files_of_wellFormed hall hraw, heq⟩]

end Both

/--
**When malformed diffs change nothing.** A block leaves what it would leave without its
malformed diffs, or cannot be applied, exactly when every group that can be is harmless and
so are its codes.
-/
theorem malformed_ignored_iff (keccak256 : Bytes → B256) (σ : HashOrder) (db : StateDb)
    (block : Block) (hnc : NoCollision keccak256 block) :
    IgnoresMalformed keccak256 σ db block
      ↔ (DiffsReadable db block.stateDiffs →
          (∀ a, diffsOf block.stateDiffs a ≠ [] →
            HarmlessGroup keccak256 db a (diffsOf block.stateDiffs a))
          ∧ HarmlessCodes keccak256 db block) := by
  constructor
  · intro h hread
    obtain ⟨b, hb⟩ := diffBatch_ok_iff_readable.mpr hread
    have happly : applyStateDiffs keccak256 σ db block = .ok (db.commit b) := by
      rw [applyStateDiffs, hb]
    obtain ⟨b', hb', hsame⟩ := diffBatch_of_applyStateDiffs (h _ happly)
    -- the two databases are the same, so they are at each key
    have hkeys := (StateDb.commit_eq_iff db).mp hsame.symm
    have hall : ∀ a, diffsOf block.stateDiffs a ≠ [] →
        HarmlessGroup keccak256 db a (diffsOf block.stateDiffs a) := by
      intro a hne
      refine (group_same_iff keccak256 hne (hread a hne)).mp ⟨?_, fun s => ?_⟩
      · have hkey := hkeys (.account a)
        rw [lastVal_diffBatch_account hb, lastVal_diffBatch_account hb', diffsOf_wellFormed] at hkey
        exact hkey
      · have hkey := hkeys (.slot a s)
        rw [lastVal_diffBatch_slot hb, lastVal_diffBatch_slot hb', diffsOf_wellFormed] at hkey
        exact hkey
    exact ⟨hall, (codes_same_iff hnc hb hb' hall).mp fun hash => hkeys (.code hash)⟩
  · intro h db' happly
    obtain ⟨b, hb, rfl⟩ := diffBatch_of_applyStateDiffs happly
    have hread := diffBatch_ok_iff_readable.mp ⟨b, hb⟩
    obtain ⟨hall, hcodes⟩ := h hread
    -- what can be applied with the malformed diffs can be without them
    obtain ⟨b', hb'⟩ := diffBatch_ok_iff_readable.mpr (readable_wellFormed hread hall)
    rw [applyStateDiffs, hb']
    refine congrArg Except.ok ((StateDb.commit_eq_iff db).mpr fun k => ?_)
    cases k with
    | account a =>
        rw [lastVal_diffBatch_account hb, lastVal_diffBatch_account hb', diffsOf_wellFormed]
        by_cases hne : diffsOf block.stateDiffs a = []
        · rw [hne]
          rfl
        · exact ((group_same_iff keccak256 hne (hread a hne)).mpr (hall a hne)).1.symm
    | slot a s =>
        rw [lastVal_diffBatch_slot hb, lastVal_diffBatch_slot hb', diffsOf_wellFormed]
        by_cases hne : diffsOf block.stateDiffs a = []
        · rw [hne]
          rfl
        · exact (((group_same_iff keccak256 hne (hread a hne)).mpr (hall a hne)).2 s).symm
    | code hash => exact ((codes_same_iff hnc hb hb' hall).mpr hcodes hash).symm
    | headBlock =>
        rw [lastVal_diffBatch_head hb, lastVal_diffBatch_head hb']
        rfl

/-- A number that is one is read as it is. -/
theorem hexNumber_eq_u64 {s : String} (hs : (hexNumber 64 s).isSome) :
    hexNumber 64 s = some ((U64.fromStrRadix (hexBody s) 16).getD 0) := by
  obtain ⟨x, hx⟩ := Option.isSome_iff_exists.mp hs
  obtain ⟨v, hv, hfits⟩ := Option.bind_eq_some_iff.mp hx
  rw [hx, U64.fromStrRadix_of_numeral hv hfits, Option.getD_some]

theorem hexNumber_eq_u256 {s : String} (hs : (hexNumber 256 s).isSome) :
    hexNumber 256 s = some ((U256.fromStrRadix (hexBody s) 16).getD 0) := by
  obtain ⟨x, hx⟩ := Option.isSome_iff_exists.mp hs
  obtain ⟨v, hv, hfits⟩ := Option.bind_eq_some_iff.mp hx
  rw [hx, U256.fromStrRadix_of_numeral hv hfits, Option.getD_some]

/-- What well-formed diffs write is what they contain. -/
theorem StateDiff.contains_of_wellFormed {d : StateDiff} (h : d.wellFormed = true) :
    (∀ v, d.nonceWrite = some v → ∃ next, d.next = some next ∧ hexNumber 64 next = some v)
      ∧ (∀ v, d.balanceWrite = some v → ∃ next, d.next = some next ∧ hexNumber 256 next = some v)
      ∧ (∀ raw, d.code = some raw → ∃ next, d.next = some next ∧ hexBytes next = some raw)
      ∧ ∀ s v, d.slotVal s = some (some v) →
          ∃ next value, d.next = some next ∧ hexNumber 256 next = some value ∧ v = beOf 32 value := by
  refine ⟨fun v hv => ?_, fun v hv => ?_, fun raw hraw => ?_, fun s v hv => ?_⟩
  · rw [nonceWrite] at hv
    split at hv
    · rename_i hk
      obtain ⟨next, hn, rfl⟩ := Option.map_eq_some_iff.mp hv
      simp only [wellFormed, hk, hn, Option.all_some] at h
      exact ⟨next, hn, hexNumber_eq_u64 h⟩
    · cases hv
  · rw [balanceWrite] at hv
    split at hv
    · rename_i hk
      obtain ⟨next, hn, rfl⟩ := Option.map_eq_some_iff.mp hv
      simp only [wellFormed, hk, hn, Option.all_some] at h
      exact ⟨next, hn, hexNumber_eq_u256 h⟩
    · cases hv
  · obtain ⟨hk, next, hn, hdecode⟩ := code_eq_some_iff.mp hraw
    simp only [wellFormed, hk, hn, Option.all_some] at h
    obtain ⟨bytes, hbytes⟩ := Option.isSome_iff_exists.mp h
    rw [hexDecode_of_decodeHex hbytes] at hdecode
    exact ⟨next, hn, hdecode ▸ hbytes⟩
  · rw [slotVal] at hv
    split at hv
    · rename_i hslot
      obtain ⟨next, hn, hval⟩ := Option.map_eq_some_iff.mp hv
      -- a key that is a slot is none of the three names
      have hfield : ∀ name ∈ ["nonce", "balance", "code"], d.key ≠ some name := by
        intro name hname hk
        simp only [List.mem_cons, List.not_mem_nil, or_false] at hname
        rcases hname with rfl | rfl | rfl <;> simp [slot, isField, hk] at hslot
      have hvalue : (hexNumber 256 next).isSome := by
        unfold wellFormed at h
        split at h
        · rename_i hk
          exact absurd hk (hfield _ (by simp))
        · rename_i hk
          exact absurd hk (hfield _ (by simp))
        · rename_i hk
          exact absurd hk (hfield _ (by simp))
        · rw [hn, Option.all_some, Bool.and_eq_true] at h
          exact h.2
        · cases h
      split at hval
      · cases hval
      · exact ⟨next, _, hn, hexNumber_eq_u256 hvalue, (Option.some.inj hval).symm⟩
    · cases hv

/-- An account with a balance. -/
def fundedDb : StateDb := StateDb.empty.commit [.setAccount 0xA ⟨3, 5, 0⟩]

/-- One diff, whose new balance is no number. -/
def garbledBlock : Block where
  header := { number := 20 }
  stateDiffs := [{ address := some 0xA, key := some "balance", kind := some "*", next := some "0xzz" }]

/-- The balance is zero afterwards, and would be kept without the diff. -/
theorem malformed_balance_is_zero :
    let keccak256 := fun _ => KECCAK256_EMPTY
    (applyStateDiffs keccak256 .sorted fundedDb garbledBlock).map (fun db => db.getAccount 0xA)
        = .ok (.ok (some ⟨3, 0, 0⟩))
      ∧ ¬ IgnoresMalformed keccak256 .sorted fundedDb garbledBlock := by
  intro keccak256
  have hzero : (applyStateDiffs keccak256 .sorted fundedDb garbledBlock).map
      (fun db => db.getAccount 0xA) = .ok (.ok (some ⟨3, 0, 0⟩)) := by decide
  -- without the diff the balance is still five
  have hkept : (applyStateDiffs keccak256 .sorted fundedDb garbledBlock.wellFormed).map
      (fun db => db.getAccount 0xA) = .ok (.ok (some ⟨3, 5, 0⟩)) := by decide
  refine ⟨hzero, fun h => ?_⟩
  cases happly : applyStateDiffs keccak256 .sorted fundedDb garbledBlock with
  | error e =>
      rw [happly] at hzero
      cases hzero
  | ok db' =>
      rw [h db' happly, ← happly, hzero] at hkept
      exact absurd hkept (by decide)

/-- Code that does not decode, which is passed over. -/
def garbledCodeBlock : Block where
  header := { number := 20 }
  stateDiffs := [{ address := some 0xA, key := some "code", kind := some "*", next := some "0x6" }]

theorem malformed_ignored_iff_garbledCode :
    IgnoresMalformed (fun _ => KECCAK256_EMPTY) .sorted fundedDb garbledCodeBlock := by
  have hmem : ∀ {a : Address} {d : StateDiff}, d ∈ diffsOf garbledCodeBlock.stateDiffs a →
      d.code = none := by
    intro a d hd
    have hd' := List.mem_of_mem_filter hd
    rw [garbledCodeBlock, List.mem_singleton] at hd'
    rw [hd']
    rfl
  refine (malformed_ignored_iff _ _ _ _ ?_).mpr fun _ => ⟨fun a hne => ?_, ?_⟩
  · intro d hd d' _ raw _ hraw _ _
    rw [garbledCodeBlock, List.mem_singleton] at hd
    rw [hd] at hraw
    cases hraw
  · have ha : a = 0xA := by
      by_contra hother
      refine hne (List.filter_eq_nil_iff.mpr fun d hd => ?_)
      rw [garbledCodeBlock, List.mem_singleton] at hd
      rw [hd]
      simpa using fun h => hother h.symm
    subst ha
    rw [HarmlessGroup, if_neg (by decide)]
    have hcell : ∀ {β : Type} (f : StateDiff → Option β) (z : β),
        lastWriter f (diffsOf garbledCodeBlock.stateDiffs 0xA) = none →
        CellKept f (diffsOf garbledCodeBlock.stateDiffs 0xA) z := by
      intro β f z hnone d hd
      rw [hnone] at hd
      cases hd
    refine ⟨fun _ => by decide, hcell _ _ (by decide), hcell _ _ (by decide),
      hcell _ _ (by decide), fun s => ?_⟩
    exact hcell _ _ rfl
  · rintro raw ⟨a, _, d, hd, hraw⟩
    rw [hmem hd] at hraw
    cases hraw

end EvmState
