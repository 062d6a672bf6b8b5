import EvmState.Lib.Lists
import EvmState.Proof.StateDb
import EvmState.Replayer.Block

/-!
# What applying state diffs leaves

The diffs are regrouped by address and the groups are walked in whatever order
the hash map has. Each group writes its own account and slots and, under their
hashes, the codes it sets, so the walk decides nothing as long as no two codes of
the block share a hash (`applyStateDiffs_order`).
-/

namespace EvmState

open Std

/-! ## Grouping -/

/-- The diffs of one address, in the block's order. -/
def diffsOf (diffs : List StateDiff) (a : Address) : List StateDiff :=
  diffs.filter (fun d => d.address == some a)

theorem groupByAddress_getElem? (diffs : List StateDiff) (a : Address) :
    (groupByAddress diffs)[a]?
      = if diffsOf diffs a = [] then none else some (diffsOf diffs a) := by
  unfold groupByAddress
  -- the map grows at the end of the list, so the induction runs from there
  induction diffs using List.reverseRecOn with
  | nil => simp [diffsOf]
  | append_singleton diffs d ih =>
      rw [List.foldl_concat]
      cases hd : d.address with
      | none => simpa [diffsOf, hd] using ih
      | some b =>
          by_cases hb : b = a
          · subst hb
            have hgrow : diffsOf (diffs ++ [d]) b = diffsOf diffs b ++ [d] := by simp [diffsOf, hd]
            simp only [ExtTreeMap.getElem?_insert_self, ih, hgrow, List.append_eq_nil_iff,
              List.cons_ne_self, and_false, if_false]
            split <;> simp_all
          · simpa [diffsOf, hd, hb, ExtTreeMap.getElem?_insert] using ih

theorem mem_entries_groupByAddress {σ : HashOrder} {diffs : List StateDiff} {a : Address}
    {ds : List StateDiff} :
    (a, ds) ∈ σ.entries (groupByAddress diffs) ↔ ds = diffsOf diffs a ∧ ds ≠ [] := by
  rw [HashOrder.mem_entries, groupByAddress_getElem?]
  split
  · rename_i h
    simp only [reduceCtorEq, false_iff, not_and, not_not]
    exact fun hds => hds.trans h
  · rename_i h
    simp only [Option.some.injEq]
    constructor
    · intro heq
      subst heq
      exact ⟨rfl, h⟩
    · exact fun hds => hds.1.symm

/-! ## The writes of one group -/

/-- The code a diff sets. -/
def StateDiff.code (d : StateDiff) : Option Bytes :=
  if d.key = some "code" then d.next.bind (fun next => hexDecode (hexBody next)) else none

theorem StateDiff.code_eq_some_iff {d : StateDiff} {raw : Bytes} :
    d.code = some raw
      ↔ d.key = some "code" ∧ ∃ next, d.next = some next ∧ hexDecode (hexBody next) = some raw := by
  unfold StateDiff.code
  split <;> rename_i hk <;> simp [hk, Option.bind_eq_some_iff]

/-- The writes one diff adds to the batch. -/
def diffWrites (keccak256 : Bytes → B256) (a : Address) (d : StateDiff) : WriteBatch :=
  (applyDiff keccak256 a (.zero, []) d).2

theorem applyDiff_snd (keccak256 : Bytes → B256) (a : Address) (st : AccountInfo × WriteBatch)
    (d : StateDiff) :
    (applyDiff keccak256 a st d).2 = st.2 ++ diffWrites keccak256 a d := by
  -- each branch appends to the batch, or leaves it
  unfold diffWrites applyDiff
  split
  · split
    · simp
    · simp
    · split <;> simp
    · split
      · split <;> simp
      · simp
  · simp

theorem foldl_applyDiff_snd (keccak256 : Bytes → B256) (a : Address) (ds : List StateDiff)
    (st : AccountInfo × WriteBatch) :
    (ds.foldl (applyDiff keccak256 a) st).2 = st.2 ++ ds.flatMap (diffWrites keccak256 a) := by
  induction ds generalizing st with
  | nil => simp
  | cons d ds ih => rw [List.foldl_cons, ih, applyDiff_snd, List.flatMap_cons, List.append_assoc]

theorem mem_diffWrites {keccak256 : Bytes → B256} {a : Address} {d : StateDiff} {w : Write}
    (h : w ∈ diffWrites keccak256 a d) :
    (∃ raw, d.code = some raw ∧ w = .setCode (keccak256 raw) raw) ∨ ∃ s, w.key = .slot a s := by
  -- only "code" files code; a key that is no field is a slot of `a`
  unfold diffWrites applyDiff at h
  split at h
  · rename_i key next hk hn
    split at h
    · cases h
    · cases h
    · split at h
      · rename_i raw hraw
        exact .inl ⟨raw, StateDiff.code_eq_some_iff.mpr ⟨hk, next, hn, hraw⟩, by simpa using h⟩
      · cases h
    · split at h
      · rename_i slot _
        split at h
        · exact .inr ⟨slot, by simp at h; rw [h]; rfl⟩
        · exact .inr ⟨slot, by simp at h; rw [h]; rfl⟩
      · cases h
  · cases h

/-- A diff that sets code files it. -/
theorem diffWrites_of_code (keccak256 : Bytes → B256) (a : Address) {d : StateDiff} {raw : Bytes}
    (h : d.code = some raw) : diffWrites keccak256 a d = [.setCode (keccak256 raw) raw] := by
  obtain ⟨hk, next, hn, hraw⟩ := StateDiff.code_eq_some_iff.mp h
  simp [diffWrites, applyDiff, hk, hn, hraw]

/-- The address whose group may write a key. -/
def Key.owner : Key → Option Address
  | .account a => some a
  | .slot a _ => some a
  | .code _ => none
  | .headBlock => none

theorem mem_addressBatch {keccak256 : Bytes → B256} {db : StateDb} {a : Address}
    {ds : List StateDiff} {b : WriteBatch} {w : Write}
    (h : addressBatch keccak256 db (a, ds) = .ok b) (hw : w ∈ b) :
    (∃ d ∈ ds, ∃ raw, d.code = some raw ∧ w = .setCode (keccak256 raw) raw)
      ∨ w.key.owner = some a := by
  unfold addressBatch at h
  split at h
  · obtain rfl := Except.ok.inj h
    obtain rfl := List.mem_singleton.mp hw
    exact .inr rfl
  · split at h
    · obtain rfl := Except.ok.inj h
      rw [foldl_applyDiff_snd] at hw
      simp only [List.nil_append, List.mem_append, List.mem_flatMap, List.mem_singleton] at hw
      rcases hw with ⟨d, hd, hw⟩ | rfl
      · rcases mem_diffWrites hw with ⟨raw, hraw, rfl⟩ | ⟨s, hs⟩
        · exact .inl ⟨d, hd, raw, hraw, rfl⟩
        · exact .inr (by rw [hs]; rfl)
      · exact .inr rfl
    · cases h

/-! ## The whole batch -/

/-- The parts of a diff batch: one for each address, then the head. -/
theorem diffBatch_parts {keccak256 : Bytes → B256} {σ : HashOrder} {db : StateDb} {block : Block}
    {b : WriteBatch} (h : diffBatch keccak256 σ db block = .ok b) :
    ∃ parts : List WriteBatch, b = parts.flatten ++ [.setHeadBlock block.header.number]
      ∧ (∀ a, diffsOf block.stateDiffs a ≠ [] →
          ∃ p ∈ parts, addressBatch keccak256 db (a, diffsOf block.stateDiffs a) = .ok p)
      ∧ ∀ p ∈ parts, ∃ a, diffsOf block.stateDiffs a ≠ []
          ∧ addressBatch keccak256 db (a, diffsOf block.stateDiffs a) = .ok p := by
  unfold diffBatch at h
  split at h
  · rename_i parts hparts
    have hall := Lists.forall₂_of_mapM_ok hparts
    refine ⟨parts, (Except.ok.inj h).symm, fun a ha => ?_, fun p hp => ?_⟩
    · exact Lists.exists_mem_right hall (mem_entries_groupByAddress.mpr ⟨rfl, ha⟩)
    · obtain ⟨⟨a, ds⟩, hmem, hds⟩ := Lists.exists_mem_left hall hp
      obtain ⟨rfl, hne⟩ := mem_entries_groupByAddress.mp hmem
      exact ⟨a, hne, hds⟩
  · cases h

theorem diffBatch_of_applyStateDiffs {keccak256 : Bytes → B256} {σ : HashOrder} {db db' : StateDb}
    {block : Block} (h : applyStateDiffs keccak256 σ db block = .ok db') :
    ∃ b, diffBatch keccak256 σ db block = .ok b ∧ db.commit b = db' := by
  unfold applyStateDiffs at h
  split at h
  · rename_i b hb
    exact ⟨b, hb, Except.ok.inj h⟩
  · cases h

theorem applyStateDiffs_error {keccak256 : Bytes → B256} {σ : HashOrder} {db : StateDb}
    {block : Block} {err : ReplayError} (h : applyStateDiffs keccak256 σ db block = .error err) :
    ∃ e, err = .db e := by
  unfold applyStateDiffs at h
  split at h
  · cases h
  · rename_i e _
    exact ⟨e, (Except.error.inj h).symm⟩

/-- The batch is built exactly when every group's is. -/
theorem diffBatch_ok_iff {keccak256 : Bytes → B256} {σ : HashOrder} {db : StateDb} {block : Block} :
    (∃ b, diffBatch keccak256 σ db block = .ok b)
      ↔ ∀ a, diffsOf block.stateDiffs a ≠ [] →
          ∃ p, addressBatch keccak256 db (a, diffsOf block.stateDiffs a) = .ok p := by
  constructor
  · intro hx a ha
    obtain ⟨b, hb⟩ := hx
    obtain ⟨parts, _, hmem, _⟩ := diffBatch_parts hb
    obtain ⟨p, _, hp⟩ := hmem a ha
    exact ⟨p, hp⟩
  · intro h
    obtain ⟨parts, hparts⟩ := Lists.mapM_ok_of_forall
      (f := addressBatch keccak256 db) (l := σ.entries (groupByAddress block.stateDiffs))
      (fun ⟨a, ds⟩ hmem => by
        obtain ⟨rfl, hne⟩ := mem_entries_groupByAddress.mp hmem
        exact h a hne)
    exact ⟨_, by rw [diffBatch, hparts]⟩

/-- What the batch leaves at a key of one address is what that address's group leaves. -/
theorem lastVal_diffBatch {keccak256 : Bytes → B256} {σ : HashOrder} {db : StateDb} {block : Block}
    {b p : WriteBatch} {a : Address} {k : Key} (h : diffBatch keccak256 σ db block = .ok b)
    (ha : diffsOf block.stateDiffs a ≠ [])
    (hp : addressBatch keccak256 db (a, diffsOf block.stateDiffs a) = .ok p)
    (hk : k.owner = some a) : b.lastVal k = p.lastVal k := by
  obtain ⟨parts, rfl, hin, hof⟩ := diffBatch_parts h
  have hhead : Write.key (.setHeadBlock block.header.number) ≠ k := by
    intro heq
    subst heq
    cases hk
  rw [WriteBatch.lastVal_append, WriteBatch.lastVal_singleton, if_neg hhead, Option.none_or]
  obtain ⟨p', hp', hp''⟩ := hin a ha
  obtain rfl : p' = p := Except.ok.inj (hp''.symm.trans hp)
  -- a part that names the key is the part of its owner
  refine WriteBatch.lastVal_flatten hp' fun q hq => ?_
  obtain ⟨a', _, hq'⟩ := hof q hq
  by_cases haa : a' = a
  · subst haa
    exact .inl (Except.ok.inj (hq'.symm.trans hp))
  · refine .inr (WriteBatch.lastVal_eq_none_iff.mpr fun w hw hwk => ?_)
    rcases mem_addressBatch hq' hw with ⟨_, _, raw, _, rfl⟩ | ho
    · rw [← hwk] at hk
      cases hk
    · rw [hwk, hk] at ho
      exact haa (Option.some.inj ho).symm

/-- Keys of an address without diffs are not named. -/
theorem lastVal_diffBatch_none {keccak256 : Bytes → B256} {σ : HashOrder} {db : StateDb}
    {block : Block} {b : WriteBatch} {a : Address} {k : Key}
    (h : diffBatch keccak256 σ db block = .ok b) (ha : diffsOf block.stateDiffs a = [])
    (hk : k.owner = some a) : b.lastVal k = none := by
  obtain ⟨parts, rfl, _, hof⟩ := diffBatch_parts h
  refine WriteBatch.lastVal_eq_none_iff.mpr fun w hw hwk => ?_
  rcases List.mem_append.mp hw with hw | hw
  · obtain ⟨q, hq, hw⟩ := List.mem_flatten.mp hw
    obtain ⟨a', hne, hq'⟩ := hof q hq
    rcases mem_addressBatch hq' hw with ⟨_, _, raw, _, rfl⟩ | ho
    · rw [← hwk] at hk
      cases hk
    · rw [hwk, hk] at ho
      exact hne (Option.some.inj ho ▸ ha)
  · obtain rfl := List.mem_singleton.mp hw
    rw [← hwk] at hk
    cases hk

theorem lastVal_diffBatch_head {keccak256 : Bytes → B256} {σ : HashOrder} {db : StateDb}
    {block : Block} {b : WriteBatch} (h : diffBatch keccak256 σ db block = .ok b) :
    b.lastVal .headBlock = some (some (beOf 8 block.header.number)) := by
  obtain ⟨parts, rfl, _, _⟩ := diffBatch_parts h
  rw [WriteBatch.lastVal_append, WriteBatch.lastVal_singleton]
  rfl

/-- No two codes the block's diffs set share a hash. -/
def NoCollision (keccak256 : Bytes → B256) (block : Block) : Prop :=
  ∀ d ∈ block.stateDiffs, ∀ d' ∈ block.stateDiffs, ∀ raw raw', d.code = some raw →
    d'.code = some raw' → keccak256 raw = keccak256 raw' → raw = raw'

theorem mem_diffBatch_code {keccak256 : Bytes → B256} {σ : HashOrder} {db : StateDb} {block : Block}
    {b : WriteBatch} (h : diffBatch keccak256 σ db block = .ok b) {w : Write} (hw : w ∈ b)
    {hash : B256} (hk : w.key = .code hash) :
    ∃ a, ∃ d ∈ diffsOf block.stateDiffs a, ∃ raw, d.code = some raw
      ∧ w = .setCode (keccak256 raw) raw := by
  obtain ⟨parts, rfl, _, hof⟩ := diffBatch_parts h
  rcases List.mem_append.mp hw with hw | hw
  · obtain ⟨q, hq, hw⟩ := List.mem_flatten.mp hw
    obtain ⟨a, _, hq'⟩ := hof q hq
    rcases mem_addressBatch hq' hw with ⟨d, hd, raw, hraw, rfl⟩ | ho
    · exact ⟨a, d, hd, raw, hraw, rfl⟩
    · rw [hk] at ho
      cases ho
  · obtain rfl := List.mem_singleton.mp hw
    cases hk

/-- Only a group without a deletion sets code, and it sets what its diffs have. -/
theorem setCode_mem_addressBatch {keccak256 : Bytes → B256} {db : StateDb} {a : Address}
    {ds : List StateDiff} {p : WriteBatch} (h : addressBatch keccak256 db (a, ds) = .ok p)
    {hash : B256} {raw : Bytes} :
    .setCode hash raw ∈ p
      ↔ keccak256 raw = hash ∧ ds.any isDeletion = false ∧ ∃ d ∈ ds, d.code = some raw := by
  unfold addressBatch at h
  cases hdel : ds.any isDeletion with
  | true =>
      rw [if_pos hdel] at h
      simp [← Except.ok.inj h]
  | false =>
      rw [if_neg (by simp [hdel])] at h
      split at h
      · rw [← Except.ok.inj h, foldl_applyDiff_snd]
        simp only [List.nil_append, List.mem_append, List.mem_flatMap, List.mem_singleton,
          reduceCtorEq, or_false, true_and]
        constructor
        · intro hm
          obtain ⟨d, hd, hw⟩ := hm
          rcases mem_diffWrites hw with ⟨raw', hraw, heq⟩ | ⟨s, hs⟩
          · cases heq
            exact ⟨rfl, d, hd, hraw⟩
          · cases hs
        · intro hm
          obtain ⟨rfl, d, hd, hraw⟩ := hm
          exact ⟨d, hd, by rw [diffWrites_of_code keccak256 a hraw]; exact List.mem_singleton_self _⟩
      · cases h

/-- The code that a batch files: that of the addresses that are not deleted. -/
theorem setCode_mem_diffBatch {keccak256 : Bytes → B256} {σ : HashOrder} {db : StateDb}
    {block : Block} {b : WriteBatch} (h : diffBatch keccak256 σ db block = .ok b) {hash : B256}
    {raw : Bytes} :
    .setCode hash raw ∈ b
      ↔ keccak256 raw = hash ∧ ∃ a, (diffsOf block.stateDiffs a).any isDeletion = false
          ∧ ∃ d ∈ diffsOf block.stateDiffs a, d.code = some raw := by
  obtain ⟨parts, rfl, hin, hof⟩ := diffBatch_parts h
  constructor
  · intro hm
    rcases List.mem_append.mp hm with hm | hm
    · obtain ⟨p, hp, hm⟩ := List.mem_flatten.mp hm
      obtain ⟨a, _, hp'⟩ := hof p hp
      obtain ⟨hhash, hdel, hd⟩ := (setCode_mem_addressBatch hp').mp hm
      exact ⟨hhash, a, hdel, hd⟩
    · -- the last write of the batch is that of the head
      cases List.mem_singleton.mp hm
  · intro hm
    obtain ⟨hhash, a, hdel, d, hd, hraw⟩ := hm
    obtain ⟨p, hp, hp'⟩ := hin a (List.ne_nil_of_mem hd)
    exact List.mem_append_left _ (List.mem_flatten.mpr
      ⟨p, hp, (setCode_mem_addressBatch hp').mpr ⟨hhash, hdel, d, hd, hraw⟩⟩)

/-- The same diffs for every address, each address keeping their order. -/
def SameGroups (diffs diffs' : List StateDiff) : Prop := ∀ a, diffsOf diffs a = diffsOf diffs' a

theorem SameGroups.symm {diffs diffs' : List StateDiff} (h : SameGroups diffs diffs') :
    SameGroups diffs' diffs := fun a => (h a).symm

section Regrouped

variable {keccak256 : Bytes → B256} {σ σ' : HashOrder} {db : StateDb} {block block' : Block}
  {b b' : WriteBatch} (hhead : block.header.number = block'.header.number)
  (hsame : SameGroups block.stateDiffs block'.stateDiffs)

include hsame

theorem diffBatch_ok_regroup :
    (∃ b, diffBatch keccak256 σ db block = .ok b)
      ↔ ∃ b, diffBatch keccak256 σ' db block' = .ok b := by
  rw [diffBatch_ok_iff, diffBatch_ok_iff]
  exact forall_congr' fun a => by rw [hsame a]

include hhead

theorem mem_diffBatch_regroup (h : diffBatch keccak256 σ db block = .ok b)
    (h' : diffBatch keccak256 σ' db block' = .ok b') {w : Write} (hw : w ∈ b) : w ∈ b' := by
  obtain ⟨parts, rfl, _, hof⟩ := diffBatch_parts h
  obtain ⟨parts', rfl, hin', _⟩ := diffBatch_parts h'
  rcases List.mem_append.mp hw with hw | hw
  · obtain ⟨q, hq, hw⟩ := List.mem_flatten.mp hw
    obtain ⟨a, ha, hq⟩ := hof q hq
    rw [hsame a] at ha hq
    obtain ⟨q', hq', hq''⟩ := hin' a ha
    obtain rfl : q' = q := Except.ok.inj (hq''.symm.trans hq)
    exact List.mem_append_left _ (List.mem_flatten.mpr ⟨q', hq', hw⟩)
  · exact List.mem_append_right _ (hhead ▸ hw)

/-- Several groups may set one code: whichever wins, it is the same. -/
theorem lastVal_diffBatch_code (hnc : NoCollision keccak256 block)
    (h : diffBatch keccak256 σ db block = .ok b) (h' : diffBatch keccak256 σ' db block' = .ok b')
    (hash : B256) : b.lastVal (.code hash) = b'.lastVal (.code hash) := by
  refine WriteBatch.lastVal_congr_of_mem (fun w _ => ?_) fun w hw w' hw' hk hk' => ?_
  · exact ⟨mem_diffBatch_regroup hhead hsame h h',
      mem_diffBatch_regroup hhead.symm hsame.symm h' h⟩
  · obtain ⟨a, d, hd, raw, hraw, rfl⟩ := mem_diffBatch_code h hw hk
    obtain ⟨a', d', hd', raw', hraw', rfl⟩ := mem_diffBatch_code h hw' hk'
    have heq : keccak256 raw = keccak256 raw' := Key.code.inj (hk.trans hk'.symm)
    rw [hnc d (List.mem_of_mem_filter hd) d' (List.mem_of_mem_filter hd') raw raw' hraw hraw' heq]

/-- **Neither the order of the walk nor that of the groups decides anything.** -/
theorem applyStateDiffs_regroup (hnc : NoCollision keccak256 block) {db' : StateDb}
    (h : applyStateDiffs keccak256 σ db block = .ok db') :
    applyStateDiffs keccak256 σ' db block' = .ok db' := by
  obtain ⟨b, hb, rfl⟩ := diffBatch_of_applyStateDiffs h
  obtain ⟨b', hb'⟩ : ∃ b', diffBatch keccak256 σ' db block' = .ok b' :=
    (diffBatch_ok_regroup hsame).mp ⟨b, hb⟩
  rw [applyStateDiffs, hb']
  refine congrArg Except.ok (StateDb.commit_congr db fun k => ?_)
  -- a key with an owner is decided by one group; the others need an argument each
  cases ho : k.owner with
  | some a =>
      by_cases ha : diffsOf block.stateDiffs a = []
      · rw [lastVal_diffBatch_none hb ha ho, lastVal_diffBatch_none hb' (hsame a ▸ ha) ho]
      · obtain ⟨p, hp⟩ := diffBatch_ok_iff.mp ⟨b, hb⟩ a ha
        rw [lastVal_diffBatch hb ha hp ho, lastVal_diffBatch hb' (hsame a ▸ ha) (hsame a ▸ hp) ho]
  | none =>
      cases k with
      | account a => cases ho
      | slot a s => cases ho
      -- the head is written behind all groups
      | headBlock => rw [lastVal_diffBatch_head hb, lastVal_diffBatch_head hb', hhead]
      | code hash => exact (lastVal_diffBatch_code hhead hsame hnc hb hb' hash).symm

end Regrouped

/-- **The order of the walk decides nothing.** -/
theorem applyStateDiffs_order {keccak256 : Bytes → B256} {block : Block}
    (hnc : NoCollision keccak256 block) (σ σ' : HashOrder) {db db' : StateDb}
    (h : applyStateDiffs keccak256 σ db block = .ok db') :
    applyStateDiffs keccak256 σ' db block = .ok db' :=
  applyStateDiffs_regroup rfl (fun _ => rfl) hnc h

end EvmState
