import Mathlib.Data.List.Forall2
import Mathlib.Data.List.Induction
import Mathlib.Data.List.TakeWhile
import Mathlib.Tactic.Common

/-!
# Lists walked for their effect

A loop that overwrites a cell leaves there what the last element to write it
wrote. `lastOf f l` is that value, for elements that write `f x`. Elements may also
reset the cell; then only those since the last reset count, `sinceLast`, and
`foldl_reset` is the rule.

The rest is about loops that may fail. `runUntil` stops at the first error and
keeps what was done before it; `mapM` in `Except` succeeds exactly when it does on
every element.
-/

namespace Lists

variable {α β σ ε : Type}

/-! ## The last writer wins -/

/-- What the last element to write anything wrote. -/
def lastOf (f : α → Option β) (l : List α) : Option β := l.reverse.findSome? f

@[simp] theorem lastOf_nil (f : α → Option β) : lastOf f [] = none := rfl

@[simp] theorem lastOf_concat (f : α → Option β) (l : List α) (x : α) :
    lastOf f (l ++ [x]) = (f x).or (lastOf f l) := by
  rw [lastOf, List.reverse_append, List.reverse_singleton, List.singleton_append,
    List.findSome?_cons]
  cases f x <;> rfl

theorem lastOf_map {γ : Type} (g : β → γ) (f : α → Option β) (l : List α) :
    lastOf (fun x => (f x).map g) l = (lastOf f l).map g := by
  induction l using List.reverseRecOn with
  | nil => rfl
  | append_singleton l x ih =>
      rw [lastOf_concat, lastOf_concat, ih]
      cases f x <;> rfl

theorem lastOf_eq_none {f : α → Option β} {l : List α} (h : ∀ x ∈ l, f x = none) :
    lastOf f l = none := by
  rw [lastOf, List.findSome?_eq_none_iff]
  exact fun x hx => h x (List.mem_reverse.mp hx)

theorem mem_of_lastOf {f : α → Option β} {l : List α} {b : β} (h : lastOf f l = some b) :
    ∃ x ∈ l, f x = some b := by
  obtain ⟨x, hx, hb⟩ := List.exists_of_findSome?_eq_some h
  exact ⟨x, List.mem_reverse.mp hx, hb⟩

/-- Where all that is written is the same, the order of the writers plays no part. -/
theorem lastOf_perm {f : α → Option β} {l m : List α} (hp : l.Perm m)
    (h : ∀ x ∈ l, ∀ y ∈ l, ∀ b c, f x = some b → f y = some c → b = c) :
    lastOf f l = lastOf f m := by
  cases hl : lastOf f l with
  | none =>
      have hnone : ∀ x ∈ l, f x = none := fun x hx =>
        List.findSome?_eq_none_iff.mp hl x (List.mem_reverse.mpr hx)
      exact (lastOf_eq_none fun x hx => hnone x (hp.mem_iff.mpr hx)).symm
  | some b =>
      obtain ⟨x, hx, hb⟩ := mem_of_lastOf hl
      cases hm : lastOf f m with
      | none =>
          have hnone := List.findSome?_eq_none_iff.mp hm x (List.mem_reverse.mpr (hp.mem_iff.mp hx))
          rw [hb] at hnone
          cases hnone
      | some c =>
          obtain ⟨y, hy, hc⟩ := mem_of_lastOf hm
          rw [h x hx y (hp.mem_iff.mpr hy) b c hb hc]

/-- The elements after the last one with `p`. -/
def sinceLast (p : α → Bool) (l : List α) : List α :=
  (l.reverse.takeWhile (fun x => !p x)).reverse

@[simp] theorem sinceLast_concat (p : α → Bool) (l : List α) (x : α) :
    sinceLast p (l ++ [x]) = if p x then [] else sinceLast p l ++ [x] := by
  unfold sinceLast
  rw [List.reverse_append, List.reverse_singleton, List.singleton_append, List.takeWhile_cons]
  cases p x <;> simp

theorem of_mem_sinceLast {p : α → Bool} {l : List α} {x : α} (h : x ∈ sinceLast p l) :
    x ∈ l ∧ p x = false := by
  rw [sinceLast, List.mem_reverse] at h
  refine ⟨List.mem_reverse.mp ((List.takeWhile_sublist _).subset h), ?_⟩
  simpa using List.mem_takeWhile_imp h

theorem sinceLast_of_not_any {p : α → Bool} {l : List α} (h : l.any p = false) :
    sinceLast p l = l := by
  have : l.reverse.takeWhile (fun x => !p x) = l.reverse := by
    refine List.takeWhile_eq_self_iff.mpr fun x hx => ?_
    have := List.any_eq_false.mp h x (List.mem_reverse.mp hx)
    simpa using this
  rw [sinceLast, this, List.reverse_reverse]

/-- **A cell that steps overwrite or reset** holds what was last written since the reset. -/
theorem foldl_reset (get : σ → β) (step : σ → α → σ) {f : α → Option β} {p : α → Bool} {z : β}
    (hreset : ∀ s x, p x = true → get (step s x) = z)
    (hstep : ∀ s x, p x = false → get (step s x) = (f x).getD (get s)) (l : List α) (s : σ) :
    get (l.foldl step s)
      = (lastOf f (sinceLast p l)).getD (if l.any p then z else get s) := by
  induction l using List.reverseRecOn with
  | nil => rfl
  | append_singleton l x ih =>
      rw [List.foldl_concat]
      cases hp : p x with
      | true => simp [hreset _ x hp, hp]
      | false =>
          rw [hstep _ x hp, ih]
          cases hf : f x <;> simp [hp, hf]

/-- A cell that steps only overwrite. -/
theorem foldl_cell (get : σ → β) (step : σ → α → σ) {f : α → Option β}
    (hstep : ∀ s x, get (step s x) = (f x).getD (get s)) (l : List α) (s : σ) :
    get (l.foldl step s) = (lastOf f l).getD (get s) := by
  induction l using List.reverseRecOn with
  | nil => rfl
  | append_singleton l x ih =>
      rw [List.foldl_concat, lastOf_concat, hstep, ih]
      cases f x <;> rfl

/-- The last element that writes the cell at all. -/
def lastWriter (f : α → Option β) (l : List α) : Option α := lastOf (fun x => (f x).map fun _ => x) l

/-- Elements can be dropped exactly if the last writer is none of them, or writes what is there. -/
theorem lastOf_filter_iff {f : α → Option β} {p : α → Bool} {l : List α} {z : β} :
    (lastOf f (l.filter p)).getD z = (lastOf f l).getD z
      ↔ ∀ x, lastWriter f l = some x → p x = false →
          f x = some ((lastOf f (l.filter p)).getD z) := by
  unfold lastWriter
  induction l using List.reverseRecOn with
  | nil => simp
  | append_singleton l x ih =>
      rw [List.filter_append, lastOf_concat, lastOf_concat]
      cases hf : f x with
      | none =>
          have hdrop : lastOf f (l.filter p ++ [x].filter p) = lastOf f (l.filter p) := by
            cases hp : p x with
            | true => rw [List.filter_cons_of_pos hp, List.filter_nil, lastOf_concat, hf,
                Option.none_or]
            | false => rw [List.filter_cons_of_neg (by simp [hp]), List.filter_nil, List.append_nil]
          rw [hdrop]
          exact ih
      | some v =>
          cases hp : p x with
          | true =>
              rw [List.filter_cons_of_pos hp, List.filter_nil, lastOf_concat, hf]
              simp [hp]
          | false =>
              rw [List.filter_cons_of_neg (by simp [hp]), List.filter_nil, List.append_nil,
                Option.map_some, Option.some_or, Option.some_or, Option.getD_some]
              constructor
              · intro h y hy _
                rw [← Option.some.inj hy, hf, h]
              · intro h
                have hx := h x rfl hp
                rw [hf] at hx
                exact (Option.some.inj hx).symm

/-- What steps do to one part of the state, when the others leave that part alone. -/
theorem foldl_project {τ : Type} {π : σ → τ} {step : σ → α → σ} {step' : τ → α → τ} {q : α → Bool}
    (hq : ∀ s x, q x = true → π (step s x) = step' (π s) x)
    (hn : ∀ s x, q x = false → π (step s x) = π s) (l : List α) (s : σ) :
    π (l.foldl step s) = (l.filter q).foldl step' (π s) := by
  induction l generalizing s with
  | nil => rfl
  | cons x l ih =>
      rw [List.foldl_cons, ih]
      cases h : q x with
      | true => rw [List.filter_cons_of_pos h, List.foldl_cons, hq s x h]
      | false => rw [List.filter_cons_of_neg (by simp [h]), hn s x h]

/-! ## Loops that may fail -/

/-- Take steps until one is an error; what was done before it stays done. -/
def runUntil (step : σ → α → σ) : List (Except ε α) → σ → σ × Except ε Unit
  | [], s => (s, .ok ())
  | .ok x :: l, s => runUntil step l (step s x)
  | .error e :: _, s => (s, .error e)

theorem runUntil_map_ok (step : σ → α → σ) (l : List α) (s : σ) :
    runUntil step (l.map (Except.ok (ε := ε))) s = (l.foldl step s, .ok ()) := by
  induction l generalizing s with
  | nil => rfl
  | cons x l ih => rw [List.map_cons, runUntil, ih, List.foldl_cons]

/-- Two stretches of steps, the second only if the first went through. -/
theorem runUntil_append (step : σ → α → σ) (l l' : List (Except ε α)) (s : σ) :
    runUntil step (l ++ l') s
      = match runUntil step l s with
        | (s', .ok ()) => runUntil step l' s'
        | (s', .error e) => (s', .error e) := by
  induction l generalizing s with
  | nil => rfl
  | cons x l ih =>
      cases x with
      | error e => rfl
      | ok x => exact ih (step s x)

/-- The error a loop stops with is the first there is. -/
theorem runUntil_error_iff (step : σ → α → σ) (l : List (Except ε α)) (s : σ) (e : ε) :
    (runUntil step l s).2 = .error e
      ↔ ∃ pre post, l = pre ++ .error e :: post ∧ ∀ x ∈ pre, ∃ a, x = .ok a := by
  induction l generalizing s with
  | nil => simp [runUntil]
  | cons x l ih =>
      cases x with
      | error e' =>
          constructor
          · intro h
            obtain rfl : e' = e := Except.error.inj h
            exact ⟨[], l, rfl, by simp⟩
          · intro h
            obtain ⟨pre, post, heq, hpre⟩ := h
            cases pre with
            | nil => exact congrArg Except.error (Except.error.inj (List.cons.inj heq).1)
            | cons y pre =>
                obtain ⟨a, ha⟩ := hpre y List.mem_cons_self
                rw [← (List.cons.inj heq).1] at ha
                cases ha
      | ok x =>
          rw [runUntil, ih]
          constructor
          · intro h
            obtain ⟨pre, post, heq, hpre⟩ := h
            exact ⟨.ok x :: pre, post, by rw [heq, List.cons_append],
              List.forall_mem_cons.mpr ⟨⟨x, rfl⟩, hpre⟩⟩
          · intro h
            obtain ⟨pre, post, heq, hpre⟩ := h
            cases pre with
            | nil => cases (List.cons.inj heq).1
            | cons y pre =>
                exact ⟨pre, post, (List.cons.inj heq).2, fun z hz => hpre z (List.mem_cons_of_mem y hz)⟩

/-- A loop that goes through has met no error. -/
theorem error_notMem_of_ok {step : σ → α → σ} {l : List (Except ε α)} {s : σ}
    (h : (runUntil step l s).2 = .ok ()) (e : ε) : .error e ∉ l := by
  induction l generalizing s with
  | nil => simp
  | cons x l ih =>
      cases x with
      | error e' => cases h
      | ok x =>
          have := ih h
          simp [this]

/-- The steps a loop takes before the first error. -/
def untilError : List (Except ε α) → List α
  | .ok x :: l => x :: untilError l
  | _ => []

theorem runUntil_fst (step : σ → α → σ) (l : List (Except ε α)) (s : σ) :
    (runUntil step l s).1 = (untilError l).foldl step s := by
  induction l generalizing s with
  | nil => rfl
  | cons x l ih =>
      cases x with
      | error e => rfl
      | ok x => rw [runUntil, ih, untilError, List.foldl_cons]

theorem eq_map_ok {l : List (Except ε α)} (h : ∀ x ∈ l, ∃ a, x = .ok a) :
    ∃ as : List α, l = as.map Except.ok := by
  induction l with
  | nil => exact ⟨[], rfl⟩
  | cons x l ih =>
      obtain ⟨a, rfl⟩ := h x List.mem_cons_self
      obtain ⟨as, rfl⟩ := ih fun y hy => h y (List.mem_cons_of_mem _ hy)
      exact ⟨a :: as, rfl⟩

/-- The results of a loop that did not fail, element by element. -/
theorem forall₂_of_mapM_ok {f : α → Except ε β} {l : List α} {bs : List β}
    (h : l.mapM f = .ok bs) : List.Forall₂ (fun x b => f x = .ok b) l bs := by
  induction l generalizing bs with
  | nil =>
      simp only [List.mapM_nil, pure, Except.pure, Except.ok.injEq] at h
      exact h ▸ .nil
  | cons x l ih =>
      rw [List.mapM_cons] at h
      cases hx : f x with
      | error e => simp [hx, bind, Except.bind] at h
      | ok b =>
          cases hl : l.mapM f with
          | error e => simp [hx, hl, bind, Except.bind] at h
          | ok bs' =>
              simp only [hx, hl, bind, Except.bind, pure, Except.pure, Except.ok.injEq] at h
              exact h ▸ .cons hx (ih hl)

theorem mapM_ok_of_forall {f : α → Except ε β} {l : List α}
    (h : ∀ x ∈ l, ∃ b, f x = .ok b) : ∃ bs, l.mapM f = .ok bs := by
  induction l with
  | nil => exact ⟨[], rfl⟩
  | cons x l ih =>
      obtain ⟨b, hb⟩ := h x List.mem_cons_self
      obtain ⟨bs, hbs⟩ := ih fun y hy => h y (List.mem_cons_of_mem x hy)
      exact ⟨b :: bs, by rw [List.mapM_cons, hb, hbs]; rfl⟩

/-- The results of a loop whose steps are known. -/
theorem mapM_ok_of_forall_mem {f : α → Except ε β} {g : α → β} {l : List α}
    (h : ∀ x ∈ l, f x = .ok (g x)) : l.mapM f = .ok (l.map g) := by
  induction l with
  | nil => rfl
  | cons x l ih =>
      obtain ⟨hx, hl⟩ := List.forall_mem_cons.mp h
      rw [List.mapM_cons, hx, ih hl]
      rfl

/-- The same for a loop that fails without saying why. -/
theorem forall₂_of_mapM_some {f : α → Option β} {l : List α} {bs : List β}
    (h : l.mapM f = some bs) : List.Forall₂ (fun x b => f x = some b) l bs := by
  induction l generalizing bs with
  | nil =>
      simp only [List.mapM_nil, pure, Option.some.injEq] at h
      exact h ▸ .nil
  | cons x l ih =>
      rw [List.mapM_cons] at h
      obtain ⟨b, hx, h⟩ := Option.bind_eq_some_iff.mp h
      obtain ⟨bs', hl, h⟩ := Option.bind_eq_some_iff.mp h
      exact Option.some.inj h ▸ .cons hx (ih hl)

theorem mapM_some_of_forall₂ {f : α → Option β} {l : List α} {bs : List β}
    (h : List.Forall₂ (fun x b => f x = some b) l bs) : l.mapM f = some bs := by
  induction h with
  | nil => rfl
  | cons hx _ ih =>
      rw [List.mapM_cons, hx, ih]
      rfl

theorem exists_mem_left {R : α → β → Prop} {l : List α} {bs : List β}
    (h : List.Forall₂ R l bs) {b : β} (hb : b ∈ bs) : ∃ x ∈ l, R x b := by
  induction h with
  | nil => cases hb
  | cons hr _ ih =>
      rcases List.mem_cons.mp hb with rfl | hb
      · exact ⟨_, List.mem_cons_self, hr⟩
      · obtain ⟨x, hx, hR⟩ := ih hb
        exact ⟨x, List.mem_cons_of_mem _ hx, hR⟩

/-- Results are in order if the elements they come from are. -/
theorem pairwise_of_forall₂ {R : α → β → Prop} {S : α → α → Prop} {T : β → β → Prop} {l : List α}
    {bs : List β} (h : List.Forall₂ R l bs) (hl : l.Pairwise S)
    (hST : ∀ x ∈ l, ∀ y ∈ l, ∀ b c, R x b → R y c → S x y → T b c) : bs.Pairwise T := by
  induction h with
  | nil => exact .nil
  | @cons x b l bs hr hrest ih =>
      obtain ⟨hx, hl⟩ := List.pairwise_cons.mp hl
      refine List.pairwise_cons.mpr ⟨fun c hc => ?_, ih hl fun y hy z hz =>
        hST y (List.mem_cons_of_mem x hy) z (List.mem_cons_of_mem x hz)⟩
      obtain ⟨y, hy, hR⟩ := exists_mem_left hrest hc
      exact hST x List.mem_cons_self y (List.mem_cons_of_mem x hy) b c hr hR (hx y hy)

theorem exists_mem_right {R : α → β → Prop} {l : List α} {bs : List β}
    (h : List.Forall₂ R l bs) {x : α} (hx : x ∈ l) : ∃ b ∈ bs, R x b :=
  exists_mem_left (R := fun b x => R x b) h.flip hx

/-- A loop fails if one of its steps does. -/
theorem mapM_error_of_mem {f : α → Except ε β} {l : List α} {x : α} {e : ε} (hx : x ∈ l)
    (h : f x = .error e) : ∃ e', l.mapM f = .error e' := by
  cases hl : l.mapM f with
  | error e' => exact ⟨e', rfl⟩
  | ok bs =>
      obtain ⟨b, _, hb⟩ := exists_mem_right (forall₂_of_mapM_ok hl) hx
      rw [h] at hb
      cases hb

end Lists
