import Mathlib.Data.List.Basic
import Mathlib.Data.List.Induction
import Mathlib.Data.List.Sort
import Mathlib.Logic.Function.Basic
import Mathlib.Tactic.Common

/-!
# Families of ordered tables, and what a write batch leaves in them

A key/value engine with several tables, each a finite map kept in ascending key
order, and batches of puts and deletes applied to all of them at once.

Everything a batch does is said by one function. `lastOp ops t k` is the last
thing a batch says about key `k` of table `t`, and `run_getElem?` turns a read
after a batch into a question about that. The two facts recovery arguments need
are then short:

* `run_absorb`: a batch hides any earlier batch that names no other keys, so
  replaying a stretch of writes that was already applied changes nothing;
* `run_perm`: two orders of one batch agree as soon as the writes to any one key
  carry one value.
-/

open Std

/-- A finite map in ascending key order. -/
abbrev Table (κ ν : Type) [Ord κ] := ExtTreeMap κ ν compare

/-- One table for every name. -/
abbrev Tables (τ κ ν : Type) [Ord κ] := τ → Table κ ν

namespace Tables

variable {τ κ ν : Type}

/-- One line of a write batch. A `val` of `none` deletes the key. -/
structure Op (τ κ ν : Type) where
  table : τ
  key : κ
  val : Option ν

/-- Apply one line of a batch. -/
def step [DecidableEq τ] [Ord κ] [TransOrd κ] (d : Tables τ κ ν) (o : Op τ κ ν) : Tables τ κ ν :=
  Function.update d o.table
    (match o.val with
     | some v => (d o.table).insert o.key v
     | none => (d o.table).erase o.key)

/-- Apply a whole batch, in order. -/
def run [DecidableEq τ] [Ord κ] [TransOrd κ] (d : Tables τ κ ν) (ops : List (Op τ κ ν)) :
    Tables τ κ ν :=
  ops.foldl step d

/-- The last thing a batch says about a key, `none` if it never names it. -/
def lastOp [DecidableEq τ] [DecidableEq κ] (ops : List (Op τ κ ν)) (t : τ) (k : κ) :
    Option (Option ν) :=
  (ops.reverse.find? (fun o => o.table = t ∧ o.key = k)).map Op.val

/-- The batch names this key. -/
def Names (ops : List (Op τ κ ν)) (t : τ) (k : κ) : Prop := ∃ o ∈ ops, o.table = t ∧ o.key = k

/-- Two families with the same bindings are the same. -/
theorem ext_getElem? [Ord κ] [TransOrd κ] [LawfulEqOrd κ] {d d' : Tables τ κ ν}
    (h : ∀ t (k : κ), (d t)[k]? = (d' t)[k]?) : d = d' :=
  funext fun t => ExtTreeMap.ext_getElem? (h t)

/-- A table's entries are the one ascending list of its bindings. -/
theorem eq_toList [Ord κ] [TransOrd κ] [LawfulEqOrd κ] {m : Table κ ν} {l : List (κ × ν)}
    (hl : l.Pairwise (fun x y => compare x.1 y.1 = .lt))
    (hmem : ∀ k v, (k, v) ∈ l ↔ m[k]? = some v) : l = m.toList := by
  have hirr : Std.Irrefl (fun x y : κ × ν => compare x.1 y.1 = .lt) :=
    ⟨fun x h => by rw [ReflOrd.compare_self] at h; cases h⟩
  -- two entries cannot each come before the other
  have hanti : Std.Antisymm (fun x y : κ × ν => compare x.1 y.1 = .lt) :=
    ⟨fun x y h h' => by
      rw [OrientedOrd.eq_swap, h'] at h
      cases h⟩
  refine List.Pairwise.eq_of_mem_iff hl ExtTreeMap.ordered_keys_toList fun e => ?_
  rw [hmem e.1 e.2, ExtTreeMap.mem_toList_iff_getElem?_eq_some]

theorem step_getElem? [DecidableEq τ] [DecidableEq κ] [Ord κ] [TransOrd κ] [LawfulEqOrd κ]
    (d : Tables τ κ ν) (o : Op τ κ ν) (t : τ) (k : κ) :
    (d.step o t)[k]? = if o.table = t ∧ o.key = k then o.val else (d t)[k]? := by
  unfold step
  by_cases ht : o.table = t
  · subst ht
    rw [Function.update_self]
    cases hv : o.val with
    | none => simp [ExtTreeMap.getElem?_erase]
    | some v => simp [ExtTreeMap.getElem?_insert]
  · rw [Function.update_of_ne (Ne.symm ht), if_neg (fun h => ht h.1)]

/-! ## The last word on a key -/

section LastOp

variable [DecidableEq τ] [DecidableEq κ]

theorem lastOp_append (xs ys : List (Op τ κ ν)) (t : τ) (k : κ) :
    lastOp (xs ++ ys) t k = (lastOp ys t k).or (lastOp xs t k) := by
  unfold lastOp
  rw [List.reverse_append, List.find?_append]
  cases ys.reverse.find? (fun o => o.table = t ∧ o.key = k) <;> rfl

theorem lastOp_singleton (o : Op τ κ ν) (t : τ) (k : κ) :
    lastOp [o] t k = if o.table = t ∧ o.key = k then some o.val else none := by
  unfold lastOp
  by_cases h : o.table = t ∧ o.key = k <;> simp [h]

theorem lastOp_eq_none_iff {ops : List (Op τ κ ν)} {t : τ} {k : κ} :
    lastOp ops t k = none ↔ ¬ Names ops t k := by
  simp [lastOp, Names, List.find?_eq_none]

/-- The last word on a key is one of the batch's own lines. -/
theorem mem_of_lastOp {ops : List (Op τ κ ν)} {t : τ} {k : κ} {v : Option ν}
    (h : lastOp ops t k = some v) : ∃ o ∈ ops, o.table = t ∧ o.key = k ∧ o.val = v := by
  obtain ⟨o, ho, hv⟩ := Option.map_eq_some_iff.mp h
  have hk := List.find?_some ho
  simp only [decide_eq_true_eq] at hk
  exact ⟨o, List.mem_reverse.mp (List.mem_of_find?_eq_some ho), hk.1, hk.2, hv⟩

/-- If the lines about a key all say the same, that is its last word. -/
theorem lastOp_eq_of_agree {ops : List (Op τ κ ν)} {t : τ} {k : κ} {v : Option ν}
    (hn : Names ops t k) (h : ∀ o ∈ ops, o.table = t → o.key = k → o.val = v) :
    lastOp ops t k = some v := by
  cases hl : lastOp ops t k with
  | none => exact absurd hn (lastOp_eq_none_iff.mp hl)
  | some w =>
      obtain ⟨o, ho, h1, h2, h3⟩ := mem_of_lastOp hl
      rw [← h3, h o ho h1 h2]

end LastOp

/-! ## Reads after a batch -/

theorem run_append [DecidableEq τ] [Ord κ] [TransOrd κ] (d : Tables τ κ ν) (xs ys : List (Op τ κ ν)) :
    d.run (xs ++ ys) = (d.run xs).run ys := List.foldl_append

variable [DecidableEq τ] [DecidableEq κ] [Ord κ] [TransOrd κ] [LawfulEqOrd κ]

/-- A read after a batch is the batch's last word on the key, if it has one. -/
theorem run_getElem? (d : Tables τ κ ν) (ops : List (Op τ κ ν)) (t : τ) (k : κ) :
    (d.run ops t)[k]? = (lastOp ops t k).getD (d t)[k]? := by
  induction ops using List.reverseRecOn generalizing d with
  | nil => rfl
  | append_singleton ops o ih =>
      rw [run_append]
      show ((d.run ops).step o t)[k]? = _
      rw [step_getElem?, ih, lastOp_append, lastOp_singleton]
      by_cases h : o.table = t ∧ o.key = k <;> simp [h]

/-- A batch does the same to a family as another with the same last words. -/
theorem run_congr {xs ys : List (Op τ κ ν)} (d : Tables τ κ ν)
    (h : ∀ t k, lastOp xs t k = lastOp ys t k) : d.run xs = d.run ys :=
  ext_getElem? fun t k => by rw [run_getElem?, run_getElem?, h]

/-- A batch hides an earlier one that names no other keys. -/
theorem run_absorb {xs ys : List (Op τ κ ν)} (d : Tables τ κ ν)
    (h : ∀ o ∈ xs, Names ys o.table o.key) : (d.run xs).run ys = d.run ys := by
  rw [← run_append]
  refine run_congr d fun t k => ?_
  rw [lastOp_append]
  cases hy : lastOp ys t k with
  | some _ => rfl
  | none =>
      have hx : lastOp xs t k = none := lastOp_eq_none_iff.mpr fun ⟨o, ho, h1, h2⟩ =>
        lastOp_eq_none_iff.mp hy (h1 ▸ h2 ▸ h o ho)
      rw [hx]; rfl

/-- Two orders of one batch agree if the writes to each key carry one value. -/
theorem run_perm {xs ys : List (Op τ κ ν)} (d : Tables τ κ ν) (hp : xs.Perm ys)
    (h : ∀ o ∈ xs, ∀ o' ∈ xs, o.table = o'.table → o.key = o'.key → o.val = o'.val) :
    d.run xs = d.run ys := by
  refine run_congr d fun t k => ?_
  cases hx : lastOp xs t k with
  | none =>
      refine (lastOp_eq_none_iff.mpr fun ⟨o, ho, h1⟩ => ?_).symm
      exact lastOp_eq_none_iff.mp hx ⟨o, hp.mem_iff.mpr ho, h1⟩
  | some v =>
      obtain ⟨o, ho, h1, h2, h3⟩ := mem_of_lastOp hx
      refine (lastOp_eq_of_agree ⟨o, hp.mem_iff.mp ho, h1, h2⟩ fun o' ho' h1' h2' => ?_).symm
      rw [← h3]
      exact (h o ho o' (hp.mem_iff.mpr ho') (h1.trans h1'.symm) (h2.trans h2'.symm)).symm

end Tables
