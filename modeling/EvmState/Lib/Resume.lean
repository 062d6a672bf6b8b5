import Mathlib.Data.List.Induction
import Mathlib.Tactic.Common

/-!
# Replaying a log from a mark

A log of numbered operations is applied in stretches, and a mark that is kept apart
from the state says up to where. The mark lags behind: after an interruption some
operations are applied that the mark does not count, and they are applied again.
That does no harm where an operation hides itself, `Replay.absorb`: a stretch that is
applied before a longer one that contains it changes nothing.

`Safe s p` says that from any mark up to `p` the rest of the log leads to the
intended end. Applying a stretch from a safe mark leaves every mark up to the end of
the stretch safe (`Safe.commit`), however far behind the mark that is then found.
-/

namespace Resume

/-- A way to apply operations that is indifferent to operations applied again. -/
structure Replay (σ ω : Type) where
  run : σ → List ω → σ
  append : ∀ s b c, run s (b ++ c) = run (run s b) c
  absorb : ∀ s b c, b ⊆ c → run (run s b) c = run s c

variable {σ ω : Type} {log : List (Nat × ω)} {p q m : Nat}

/-- The operations numbered above `q`. -/
def after (log : List (Nat × ω)) (q : Nat) : List ω :=
  (log.filter (fun e => q < e.1)).map Prod.snd

/-- The part of a log that is numbered above `q` and up to `m`. -/
def stretch (log : List (Nat × ω)) (q m : Nat) : List (Nat × ω) :=
  log.filter (fun e => q < e.1 ∧ e.1 ≤ m)

/-- Its operations. -/
def between (log : List (Nat × ω)) (q m : Nat) : List ω := (stretch log q m).map Prod.snd

/-- The numbers of a log grow. -/
def Sorted (log : List (Nat × ω)) : Prop := log.Pairwise (fun e e' => e.1 < e'.1)

theorem between_subset_after {q' : Nat} (h : q' ≤ q) : between log q m ⊆ after log q' := by
  intro w hw
  obtain ⟨e, he, rfl⟩ := List.mem_map.mp hw
  rw [stretch, List.mem_filter, decide_eq_true_eq] at he
  exact List.mem_map.mpr ⟨e, List.mem_filter.mpr ⟨he.1, decide_eq_true (by omega)⟩, rfl⟩

/-- In a sorted log what comes up to a number stands before what comes after it. -/
theorem filter_split {P : Nat × ω → Bool} (hs : Sorted log) (m : Nat) :
    log.filter P = log.filter (fun e => P e ∧ e.1 ≤ m) ++ log.filter (fun e => P e ∧ m < e.1) := by
  induction log with
  | nil => rfl
  | cons e log ih =>
      obtain ⟨hlt, hs⟩ := List.pairwise_cons.mp hs
      by_cases hm : e.1 ≤ m
      · cases hP : P e <;> simp [hP, hm, Nat.not_lt.mpr hm, ih hs]
      · -- everything from here on is numbered above `m`
        have hnone : ∀ e' ∈ log, ¬ e'.1 ≤ m := fun e' he' => by
          have := hlt e' he'
          omega
        have hfirst : log.filter (fun e => P e ∧ e.1 ≤ m) = [] :=
          List.filter_eq_nil_iff.mpr fun e' he' => by simp [hnone e' he']
        have hrest := ih hs
        rw [hfirst, List.nil_append] at hrest
        have hhead : (e :: log).filter (fun e => P e ∧ e.1 ≤ m) = [] := by
          rw [List.filter_cons_of_neg (by simp [hm]), hfirst]
        rw [hhead, List.nil_append]
        cases hP : P e with
        | false =>
            rw [List.filter_cons_of_neg (by simp [hP]), List.filter_cons_of_neg (by simp [hP]),
              hrest]
        | true =>
            rw [List.filter_cons_of_pos hP,
              List.filter_cons_of_pos (by simp [hP, Nat.not_le.mp hm]), hrest]

theorem after_eq (hs : Sorted log) (h : q ≤ m) :
    after log q = between log q m ++ after log m := by
  rw [after, filter_split hs m, List.map_append, between, stretch, after]
  congr 2
  · simp
  · refine List.filter_congr fun e _ => ?_
    simp only [decide_eq_true_eq]
    exact decide_eq_decide.mpr ⟨fun he => he.2, fun he => ⟨by omega, he⟩⟩

theorem between_eq {q' : Nat} (hs : Sorted log) (h : q ≤ q') (h' : q' ≤ m) :
    between log q m = between log q q' ++ between log q' m := by
  rw [between, stretch, filter_split hs q', List.map_append, between, stretch, between, stretch]
  congr 2
  · refine List.filter_congr fun e _ => ?_
    simp only [decide_eq_true_eq]
    exact decide_eq_decide.mpr ⟨fun he => ⟨he.1.1, he.2⟩, fun he => ⟨⟨he.1, by omega⟩, he.2⟩⟩
  · refine List.filter_congr fun e _ => ?_
    simp only [decide_eq_true_eq]
    exact decide_eq_decide.mpr ⟨fun he => ⟨he.2, he.1.2⟩, fun he => ⟨⟨by omega, he.2⟩, he.1⟩⟩

theorem after_eq_nil (h : ∀ e ∈ log, e.1 ≤ p) : after log p = [] := by
  have : log.filter (fun e => p < e.1) = [] :=
    List.filter_eq_nil_iff.mpr fun e he => by simpa using h e he
  rw [after, this, List.map_nil]

/-! ## Logs that are read off a list -/

section Numbered

variable {α : Type} {f : α → Option ω} {xs pre post : List α} {x : α}

/-- The log of a list whose first place has the number `n + 1`. -/
def numberedFrom (f : α → Option ω) (n : Nat) : List α → List (Nat × ω)
  | [] => []
  | x :: xs => ((f x).map fun w => (n + 1, w)).toList ++ numberedFrom f (n + 1) xs

/-- The log of a list: what `f` finds at a place, with its number from one on. -/
def numbered (f : α → Option ω) (xs : List α) : List (Nat × ω) := numberedFrom f 0 xs

theorem numberedFrom_append (n : Nat) (xs ys : List α) :
    numberedFrom f n (xs ++ ys) = numberedFrom f n xs ++ numberedFrom f (n + xs.length) ys := by
  induction xs generalizing n with
  | nil => rfl
  | cons x xs ih =>
      rw [List.cons_append, numberedFrom, ih, numberedFrom, List.append_assoc, List.length_cons,
        Nat.add_right_comm, Nat.add_assoc n]

theorem bounds_of_mem {n : Nat} {e : Nat × ω} (h : e ∈ numberedFrom f n xs) :
    n < e.1 ∧ e.1 ≤ n + xs.length := by
  induction xs generalizing n with
  | nil => cases h
  | cons x xs ih =>
      rw [List.length_cons]
      rcases List.mem_append.mp h with h | h
      · obtain ⟨w, _, rfl⟩ := Option.map_eq_some_iff.mp (Option.mem_toList.mp h)
        exact ⟨Nat.lt_succ_self n, by omega⟩
      · obtain ⟨h1, h2⟩ := ih h
        omega

theorem exists_of_mem {n : Nat} {e : Nat × ω} (h : e ∈ numberedFrom f n xs) :
    ∃ x ∈ xs, f x = some e.2 := by
  induction xs generalizing n with
  | nil => cases h
  | cons x xs ih =>
      rcases List.mem_append.mp h with h | h
      · obtain ⟨w, hw, rfl⟩ := Option.map_eq_some_iff.mp (Option.mem_toList.mp h)
        exact ⟨x, List.mem_cons_self, hw⟩
      · obtain ⟨y, hy, hw⟩ := ih h
        exact ⟨y, List.mem_cons_of_mem x hy, hw⟩

theorem sorted_numberedFrom (n : Nat) (xs : List α) : Sorted (numberedFrom f n xs) := by
  induction xs generalizing n with
  | nil => exact .nil
  | cons x xs ih =>
      refine List.pairwise_append.mpr ⟨?_, ih (n + 1), fun e he e' he' => ?_⟩
      · cases f x <;> simp
      · obtain ⟨w, _, rfl⟩ := Option.map_eq_some_iff.mp (Option.mem_toList.mp he)
        exact (bounds_of_mem he').1

theorem sorted_numbered (xs : List α) : Sorted (numbered f xs) := sorted_numberedFrom 0 xs

theorem le_of_mem_numbered {e : Nat × ω} (h : e ∈ numbered f xs) : e.1 ≤ xs.length :=
  Nat.zero_add xs.length ▸ (bounds_of_mem h).2

/-- A stretch that goes one place further has what is found there. -/
theorem stretch_succ (h : q ≤ pre.length) :
    stretch (numbered f (pre ++ x :: post)) q (pre.length + 1)
      = stretch (numbered f (pre ++ x :: post)) q pre.length
        ++ ((f x).map fun w => (pre.length + 1, w)).toList := by
  have hpre : ∀ e ∈ numberedFrom f 0 pre, e.1 ≤ pre.length := fun e he => le_of_mem_numbered he
  have hpost : ∀ e ∈ numberedFrom f (pre.length + 1) post, pre.length + 1 < e.1 :=
    fun e he => (bounds_of_mem he).1
  rw [numbered, numberedFrom_append, numberedFrom, Nat.zero_add]
  simp only [stretch, List.filter_append]
  have h1 : (numberedFrom f 0 pre).filter (fun e => q < e.1 ∧ e.1 ≤ pre.length + 1)
      = (numberedFrom f 0 pre).filter (fun e => q < e.1 ∧ e.1 ≤ pre.length) := by
    refine List.filter_congr fun e he => decide_eq_decide.mpr ?_
    have := hpre e he
    omega
  have h2 : ∀ m, m ≤ pre.length + 1 →
      (numberedFrom f (pre.length + 1) post).filter (fun e => q < e.1 ∧ e.1 ≤ m) = [] := by
    intro m hm
    refine List.filter_eq_nil_iff.mpr fun e he => ?_
    have := hpost e he
    simp only [decide_eq_true_eq]
    omega
  have hq : q < pre.length + 1 := by omega
  rw [h1, h2 _ (Nat.le_refl _), h2 _ (Nat.le_succ _)]
  cases f x <;> simp [hq]

theorem map_snd_numberedFrom (n : Nat) (xs : List α) :
    (numberedFrom f n xs).map Prod.snd = xs.filterMap f := by
  induction xs generalizing n with
  | nil => rfl
  | cons x xs ih =>
      rw [numberedFrom, List.map_append, ih, List.filterMap_cons]
      cases f x <;> rfl

/-- After nothing comes everything. -/
theorem after_numbered (xs : List α) : after (numbered f xs) 0 = xs.filterMap f := by
  have hall : (numbered f xs).filter (fun e => 0 < e.1) = numbered f xs :=
    List.filter_eq_self.mpr fun e he => decide_eq_true (bounds_of_mem he).1
  rw [after, hall, numbered, map_snd_numberedFrom]

/-- The last operation of a sorted log is the last of every stretch that reaches it. -/
theorem getLast?_stretch (hs : Sorted log) (hm : ∀ e ∈ log, e.1 ≤ m) :
    (stretch log q m).getLast? = log.getLast?.filter (fun e => q < e.1) := by
  induction log using List.reverseRecOn with
  | nil => rfl
  | append_singleton l e _ =>
      have hlt : ∀ e' ∈ l, e'.1 < e.1 := fun e' he' =>
        (List.pairwise_append.mp hs).2.2 e' he' e List.mem_cons_self
      have he : e.1 ≤ m := hm e (by simp)
      rw [stretch, List.filter_append, List.getLast?_concat, Option.filter_some]
      by_cases hq : q < e.1
      · simp [hq, he]
      · have hnil : l.filter (fun e => q < e.1 ∧ e.1 ≤ m) = [] :=
          List.filter_eq_nil_iff.mpr fun e' he' => by
            have := hlt e' he'
            simp only [decide_eq_true_eq]
            omega
        rw [hnil, List.nil_append, List.filter_cons_of_neg (by simp [hq])]
        simp [hq]

theorem stretch_nil (h : m ≤ q) : stretch log q m = [] := by
  refine List.filter_eq_nil_iff.mpr fun e _ => ?_
  simp only [decide_eq_true_eq]
  omega

end Numbered

namespace Replay

variable (R : Replay σ ω) {s₀ s : σ}

/-- From any mark up to `p`, the rest of the log leads where all of it leads from `s₀`. -/
def Safe (log : List (Nat × ω)) (s₀ s : σ) (p : Nat) : Prop :=
  ∀ q ≤ p, R.run s (after log q) = R.run s₀ (after log 0)

variable {R}

theorem safe_start : R.Safe log s₀ s₀ 0 := by
  intro q hq
  rw [Nat.le_zero.mp hq]

theorem Safe.mono (h : R.Safe log s₀ s m) (hp : p ≤ m) : R.Safe log s₀ s p :=
  fun q hq => h q (Nat.le_trans hq hp)

/-- **Applying a stretch from a safe mark** makes every mark up to its end safe. -/
theorem Safe.commit (hs : Sorted log) (h : R.Safe log s₀ s p) (hq : q ≤ p) :
    R.Safe log s₀ (R.run s (between log q m)) m := by
  intro q' hq'
  rcases Nat.le_total q' q with hle | hle
  · -- the stretch is applied again as a whole
    rw [R.absorb _ _ _ (between_subset_after hle)]
    exact h q' (Nat.le_trans hle hq)
  · -- only its later part is applied again
    rw [between_eq hs hle hq', R.append, R.absorb _ _ _ (between_subset_after (Nat.le_refl q')),
      ← R.append, ← after_eq hs hle]
    exact h q hq

/-- When nothing is left to apply, every mark is safe. -/
theorem Safe.beyond (h : R.Safe log s₀ s p) (hp : ∀ e ∈ log, e.1 ≤ p) (m : Nat) :
    R.Safe log s₀ s m := by
  intro q _
  rcases Nat.le_total q p with hle | hle
  · exact h q hle
  · have := h p (Nat.le_refl p)
    rw [after_eq_nil hp] at this
    rw [after_eq_nil fun e he => Nat.le_trans (hp e he) hle]
    exact this

/-- When nothing is left to apply, the end is reached. -/
theorem Safe.done (h : R.Safe log s₀ s p) (hp : ∀ e ∈ log, e.1 ≤ p) (hnil : R.run s [] = s) :
    s = R.run s₀ (after log 0) := by
  have := h p (Nat.le_refl p)
  rwa [after_eq_nil hp, hnil] at this

end Replay

end Resume
