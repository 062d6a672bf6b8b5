import Std.Data.ExtTreeMap
import EvmState.Lib.Lists
import Mathlib.Data.List.Basic
import Mathlib.Tactic.Common

/-!
# Maps built entry by entry

`insertAll m l` inserts the pairs of a list into a map, later pairs replacing
earlier ones of the same key. A lookup is decided by the pairs of its key: none of
them, or some that agree.
-/

namespace Maps

open Std

variable {κ ν : Type} [Ord κ]

/-- Insert every pair, in order. -/
def insertAll [TransOrd κ] (m : ExtTreeMap κ ν compare) (l : List (κ × ν)) :
    ExtTreeMap κ ν compare :=
  l.foldl (fun m e => m.insert e.1 e.2) m

variable [TransOrd κ] [LawfulEqOrd κ] {m : ExtTreeMap κ ν compare} {l : List (κ × ν)} {k : κ}
  {v : ν}

/-- A key without pairs keeps what it had. -/
theorem insertAll_getElem?_of_not_mem (h : ∀ v, (k, v) ∉ l) : (insertAll m l)[k]? = m[k]? := by
  unfold insertAll
  induction l generalizing m with
  | nil => rfl
  | cons e l ih =>
      have hne : e.1 ≠ k := by
        intro heq
        subst heq
        exact h e.2 List.mem_cons_self
      rw [List.foldl_cons, ih fun v hv => h v (List.mem_cons_of_mem e hv), ExtTreeMap.getElem?_insert,
        if_neg (by simpa using hne)]

/-- A key whose pairs agree gets their value. -/
theorem insertAll_getElem?_of_agree (hv : (k, v) ∈ l) (h : ∀ v', (k, v') ∈ l → v' = v) :
    (insertAll m l)[k]? = some v := by
  unfold insertAll
  induction l generalizing m with
  | nil => cases hv
  | cons e l ih =>
      rw [List.foldl_cons]
      by_cases hl : ∃ v', (k, v') ∈ l
      · obtain ⟨v', hv'⟩ := hl
        obtain rfl := h v' (List.mem_cons_of_mem e hv')
        exact ih hv' fun u hu => h u (List.mem_cons_of_mem e hu)
      · obtain rfl : (k, v) = e := (List.mem_cons.mp hv).resolve_right fun hmem => hl ⟨v, hmem⟩
        have hnot : ∀ u, (k, u) ∉ l := fun u hu => hl ⟨u, hu⟩
        exact (insertAll_getElem?_of_not_mem hnot).trans ExtTreeMap.getElem?_insert_self

/-- A map built from nothing holds only its pairs. -/
theorem mem_of_insertAll (h : (insertAll (∅ : ExtTreeMap κ ν compare) l)[k]? = some v) :
    (k, v) ∈ l := by
  suffices hm : ∀ m : ExtTreeMap κ ν compare,
      (insertAll m l)[k]? = some v → m[k]? = some v ∨ (k, v) ∈ l by
    exact (hm ∅ h).resolve_left (by simp)
  clear h
  unfold insertAll
  induction l with
  | nil => exact fun m hm => .inl hm
  | cons e l ih =>
      intro m hm
      rcases ih _ hm with hk | hk
      · rw [ExtTreeMap.getElem?_insert] at hk
        split at hk
        · rename_i heq
          simp only [Std.compare_eq_iff_eq] at heq
          right
          rw [← heq, ← Option.some.inj hk]
          exact List.mem_cons_self
        · exact .inl hk
      · exact .inr (List.mem_cons_of_mem e hk)

/-- **A map built from pairs that agree** holds exactly its pairs. -/
theorem insertAll_empty_getElem?_iff (h : ∀ v v', (k, v) ∈ l → (k, v') ∈ l → v' = v) :
    (insertAll (∅ : ExtTreeMap κ ν compare) l)[k]? = some v ↔ (k, v) ∈ l :=
  ⟨mem_of_insertAll, fun hv => insertAll_getElem?_of_agree hv fun v' hv' => h v v' hv hv'⟩

/-- A map is built from its own entries. -/
theorem insertAll_toList (m : ExtTreeMap κ ν compare) : insertAll ∅ m.toList = m := by
  refine ExtTreeMap.ext_getElem? fun k => Option.ext fun v => ?_
  have hmem : ∀ v, (k, v) ∈ m.toList ↔ m[k]? = some v :=
    fun _ => ExtTreeMap.mem_toList_iff_getElem?_eq_some
  rw [← hmem v]
  refine insertAll_empty_getElem?_iff fun v v' h h' => ?_
  exact Option.some.inj (((hmem v').mp h').symm.trans ((hmem v).mp h))

/-- The last value a list has for a key. -/
def lastValue (l : List (κ × ν)) (k : κ) : Option ν :=
  Lists.lastOf (fun e => if compare e.1 k = .eq then some e.2 else none) l

omit [LawfulEqOrd κ] in
theorem insertAll_getElem? (m : ExtTreeMap κ ν compare) (l : List (κ × ν)) (k : κ) :
    (insertAll m l)[k]? = (lastValue l k).or m[k]? := by
  unfold insertAll lastValue
  induction l using List.reverseRecOn with
  | nil => rfl
  | append_singleton l e ih =>
      rw [List.foldl_concat, ExtTreeMap.getElem?_insert, Lists.lastOf_concat]
      split
      · rfl
      · exact ih

omit [TransOrd κ] [LawfulEqOrd κ] in
theorem lastValue_map {μ : Type} (f : ν → μ) (l : List (κ × ν)) (k : κ) :
    lastValue (l.map fun e => (e.1, f e.2)) k = (lastValue l k).map f := by
  unfold lastValue
  induction l using List.reverseRecOn with
  | nil => rfl
  | append_singleton l e ih =>
      rw [List.map_append, List.map_singleton, Lists.lastOf_concat, Lists.lastOf_concat, ih]
      split
      · rfl
      · rfl

/-- Inserting changes nothing exactly if each key has its last value already. -/
theorem insertAll_eq_self_iff {m : ExtTreeMap κ ν compare} {l : List (κ × ν)} :
    insertAll m l = m ↔ ∀ k v, lastValue l k = some v → m[k]? = some v := by
  constructor
  · intro h k v hv
    have hk := insertAll_getElem? m l k
    rw [h, hv, Option.some_or] at hk
    exact hk
  · intro h
    refine ExtTreeMap.ext_getElem? fun k => ?_
    rw [insertAll_getElem?]
    cases hv : lastValue l k with
    | none => rfl
    | some v => rw [h k v hv, Option.some_or]

end Maps
