import Mathlib.Data.List.Basic
import Mathlib.Tactic.Common

/-!
# Computations that ask their environment questions

A `Dialogue` is a computation written as the tree of its questions: it either
stops with a result or asks something and goes on in a way that depends on
nothing but the answer. Being such a tree is what it means to be deterministic in
what one reads.

The environment comes in two forms. A *view* answers each question once and for
all (`eval`, with `asked` the questions that came up). A *handler* answers from a
state that its answers may change (`exec`). Three rules connect them:

* `eval_congr`: a view may be replaced by one that agrees on what was asked;
* `exec_inv`: what each answer preserves, a whole run preserves;
* `exec_eq_eval`: a handler whose state changes never change its answers is a
  view that also keeps a log.

Where each question takes a computation of its own to answer, `interp` puts that
computation in its place; a handler that always answers runs the result (`play`).
-/

/-- A computation asking questions `q : Q`, each answered in `A q`. -/
inductive Dialogue (Q : Type) (A : Q → Type) (ρ : Type) where
  | done (r : ρ)
  | ask (q : Q) (k : A q → Dialogue Q A ρ)

namespace Dialogue

variable {Q : Type} {A : Q → Type} {ρ ε σ : Type}

/-- Run against fixed answers; a failing answer ends the run. -/
def eval (view : (q : Q) → Except ε (A q)) : Dialogue Q A ρ → Except ε ρ
  | done r => .ok r
  | ask q k =>
      match view q with
      | .ok a => eval view (k a)
      | .error e => .error e

/-- The questions a run asks, in order, the failing one included. -/
def asked (view : (q : Q) → Except ε (A q)) : Dialogue Q A ρ → List Q
  | done _ => []
  | ask q k =>
      q :: match view q with
        | .ok a => asked view (k a)
        | .error _ => []

/-- Run against a handler that threads a state. -/
def exec (handler : (q : Q) → σ → Except ε (A q × σ)) : Dialogue Q A ρ → σ → Except ε (ρ × σ)
  | done r, s => .ok (r, s)
  | ask q k, s =>
      match handler q s with
      | .ok (a, s') => exec handler (k a) s'
      | .error e => .error e

/-- What is asked after a question is asked because of its answer. -/
@[simp] theorem mem_asked_ask {view : (q : Q) → Except ε (A q)} {q q' : Q}
    {k : A q → Dialogue Q A ρ} :
    q' ∈ asked view (ask q k) ↔ q' = q ∨ ∃ a, view q = .ok a ∧ q' ∈ asked view (k a) := by
  rw [asked, List.mem_cons]
  cases view q with
  | error e => simp
  | ok a => simp

/-- Only the answers to what was asked matter. -/
theorem eval_congr {ε' : Type} {v : (q : Q) → Except ε (A q)} {v' : (q : Q) → Except ε' (A q)}
    {d : Dialogue Q A ρ} {r : ρ} (hr : eval v d = .ok r)
    (h : ∀ q ∈ asked v d, ∀ a, v q = .ok a → v' q = .ok a) : eval v' d = .ok r := by
  induction d with
  | done r' =>
      simp only [eval, Except.ok.injEq] at hr ⊢
      exact hr
  | ask q k ih =>
      cases hq : v q with
      | error e => simp [eval, hq] at hr
      | ok a =>
          simp only [eval, hq] at hr
          simp only [asked, hq, List.mem_cons] at h
          simp only [eval, h q (.inl rfl) a hq]
          exact ih a hr (fun q' hq' => h q' (.inr hq'))

/-- How failures are reported does not matter either. -/
theorem eval_mapError {ε' : Type} (v : (q : Q) → Except ε (A q)) (f : ε → ε')
    (d : Dialogue Q A ρ) : eval (fun q => (v q).mapError f) d = (eval v d).mapError f := by
  induction d with
  | done r => rfl
  | ask q k ih =>
      rw [eval, eval]
      cases v q with
      | error e => rfl
      | ok a => exact ih a

theorem asked_mapError {ε' : Type} (v : (q : Q) → Except ε (A q)) (f : ε → ε')
    (d : Dialogue Q A ρ) : asked (fun q => (v q).mapError f) d = asked v d := by
  induction d with
  | done r => rfl
  | ask q k ih =>
      rw [asked, asked]
      cases v q with
      | error e => rfl
      | ok a => exact congrArg (q :: ·) (ih a)

/-- A property that every answer preserves holds at the end of a run. -/
theorem exec_inv {handler : (q : Q) → σ → Except ε (A q × σ)} {Inv : σ → Prop}
    (hstep : ∀ q s a s', Inv s → handler q s = .ok (a, s') → Inv s')
    {d : Dialogue Q A ρ} {s s' : σ} {r : ρ} (hs : Inv s)
    (h : exec handler d s = .ok (r, s')) : Inv s' := by
  induction d generalizing s with
  | done r' =>
      simp only [exec, Except.ok.injEq, Prod.mk.injEq] at h
      exact h.2 ▸ hs
  | ask q k ih =>
      cases hq : handler q s with
      | error e => simp [exec, hq] at h
      | ok p =>
          obtain ⟨a, s₁⟩ := p
          simp only [exec, hq] at h
          exact ih a (hstep q s a s₁ hs hq) h

/--
A handler that answers like a view wherever `Inv` holds, and whose updates keep
`Inv`, gives the view's result and the state its updates add up to.
-/
theorem exec_eq_eval {handler : (q : Q) → σ → Except ε (A q × σ)}
    {v : (q : Q) → Except ε (A q)} {upd : σ → Q → σ} {Inv : σ → Prop}
    (hans : ∀ q s, Inv s → handler q s = (v q).map (fun a => (a, upd s q)))
    (hinv : ∀ q s a, Inv s → v q = .ok a → Inv (upd s q))
    (d : Dialogue Q A ρ) (s : σ) (hs : Inv s) :
    exec handler d s = (eval v d).map (fun r => (r, (asked v d).foldl upd s)) := by
  induction d generalizing s with
  | done r => rfl
  | ask q k ih =>
      rw [exec, hans q s hs]
      cases hq : v q with
      | error e => simp [Except.map, eval, hq]
      | ok a =>
          simp only [Except.map, eval, asked, hq, List.foldl_cons]
          exact ih a (upd s q) (hinv q s a hs hq)

/-! ## Composition -/

variable {τ : Type} {Q' : Type} {A' : Q' → Type}

/-- One computation after another. -/
def bind : Dialogue Q A ρ → (ρ → Dialogue Q A τ) → Dialogue Q A τ
  | done r, f => f r
  | ask q k, f => ask q fun a => bind (k a) f

theorem bind_assoc {μ : Type} (d : Dialogue Q A ρ) (f : ρ → Dialogue Q A τ) (g : τ → Dialogue Q A μ) :
    (d.bind f).bind g = d.bind fun r => (f r).bind g := by
  induction d with
  | done r => rfl
  | ask q k ih =>
      simp only [bind, ask.injEq, heq_eq_eq, true_and]
      exact funext fun a => ih a

theorem eval_bind (view : (q : Q) → Except ε (A q)) (d : Dialogue Q A ρ) (f : ρ → Dialogue Q A τ) :
    eval view (d.bind f) = (eval view d).bind fun r => eval view (f r) := by
  induction d with
  | done r => rfl
  | ask q k ih =>
      rw [bind, eval, eval]
      cases view q with
      | error e => rfl
      | ok a => exact ih a

/-- A composition that ends has its first part end, and then the rest. -/
theorem eval_bind_ok {view : (q : Q) → Except ε (A q)} {d : Dialogue Q A ρ} {f : ρ → Dialogue Q A τ}
    {t : τ} (h : eval view (d.bind f) = .ok t) :
    ∃ r, eval view d = .ok r ∧ eval view (f r) = .ok t := by
  rw [eval_bind] at h
  cases hd : eval view d with
  | error e =>
      rw [hd] at h
      cases h
  | ok r =>
      rw [hd] at h
      exact ⟨r, rfl, h⟩

/-- What a composition asks: what its first part asks, and the rest once that has ended. -/
theorem mem_asked_bind {view : (q : Q) → Except ε (A q)} {q : Q} {d : Dialogue Q A ρ}
    {f : ρ → Dialogue Q A τ} :
    q ∈ asked view (d.bind f) ↔ q ∈ asked view d ∨ ∃ r, eval view d = .ok r ∧ q ∈ asked view (f r) := by
  induction d with
  | done r => simp [bind, asked, eval]
  | ask q' k ih =>
      rw [bind, mem_asked_ask, mem_asked_ask, eval]
      cases view q' with
      | error e => simp
      | ok a => simp [ih, or_assoc]

/-- A result that is made over asks nothing more. -/
theorem asked_bind_done (view : (q : Q) → Except ε (A q)) (d : Dialogue Q A ρ) (f : ρ → τ) :
    asked view (d.bind fun r => done (f r)) = asked view d := by
  induction d with
  | done r => rfl
  | ask q k ih =>
      rw [bind, asked, asked]
      cases view q with
      | error e => rfl
      | ok a => exact congrArg (q :: ·) (ih a)

/-- The questions of a run, whatever the answers are; the one that fails is the last. -/
inductive Poses : Dialogue Q A ρ → List Q → Prop
  | done (r : ρ) : Poses (done r) []
  | failed (q : Q) (k : A q → Dialogue Q A ρ) : Poses (ask q k) [q]
  | answered {q : Q} {k : A q → Dialogue Q A ρ} (a : A q) {qs : List Q} :
      Poses (k a) qs → Poses (ask q k) (q :: qs)

/-- A view is one way to answer. -/
theorem poses_asked (view : (q : Q) → Except ε (A q)) (d : Dialogue Q A ρ) :
    d.Poses (asked view d) := by
  induction d with
  | done r => exact .done r
  | ask q k ih =>
      rw [asked]
      cases view q with
      | error e => exact .failed q k
      | ok a => exact .answered a (ih a)

theorem poses_done {r : ρ} {qs : List Q} (h : (done r : Dialogue Q A ρ).Poses qs) : qs = [] := by
  cases h
  rfl

/-- What is asked behind the first question. -/
theorem poses_ask {q : Q} {k : A q → Dialogue Q A ρ} {qs : List Q} (h : (ask q k).Poses qs) :
    ∃ rest, qs = q :: rest ∧ (rest = [] ∨ ∃ a, (k a).Poses rest) := by
  cases h with
  | failed => exact ⟨[], rfl, .inl rfl⟩
  | answered a h => exact ⟨_, rfl, .inr ⟨a, h⟩⟩

theorem poses_bind_done {d : Dialogue Q A ρ} {f : ρ → τ} {qs : List Q}
    (h : (d.bind fun r => done (f r)).Poses qs) : d.Poses qs := by
  induction d generalizing qs with
  | done r =>
      rw [poses_done h]
      exact .done r
  | ask q k ih =>
      obtain ⟨rest, rfl, rfl | ⟨a, ha⟩⟩ := poses_ask h
      · exact .failed q k
      · exact .answered a (ih a ha)

/-- Run against a handler that always answers. -/
def play (handler : (q : Q) → σ → A q × σ) : Dialogue Q A ρ → σ → ρ × σ
  | done r, s => (r, s)
  | ask q k, s => play handler (k (handler q s).1) (handler q s).2

theorem play_bind {handler : (q : Q) → σ → A q × σ} (d : Dialogue Q A ρ) (f : ρ → Dialogue Q A τ)
    (s : σ) : play handler (d.bind f) s = play handler (f (play handler d s).1) (play handler d s).2 := by
  induction d generalizing s with
  | done r => rfl
  | ask q k ih => exact ih _ _

/-- What is true of each question such a run comes to, and of the state it comes to it in. -/
def Along (handler : (q : Q) → σ → A q × σ) (P : Q → σ → Prop) : Dialogue Q A ρ → σ → Prop
  | done _, _ => True
  | ask q k, s => P q s ∧ Along handler P (k (handler q s).1) (handler q s).2

theorem Along.imp {handler : (q : Q) → σ → A q × σ} {P P' : Q → σ → Prop} {d : Dialogue Q A ρ}
    {s : σ} (h : Along handler P d s) (hP : ∀ q s, P q s → P' q s) : Along handler P' d s := by
  induction d generalizing s with
  | done r => trivial
  | ask q k ih => exact ⟨hP q s h.1, ih _ h.2⟩

theorem along_bind {handler : (q : Q) → σ → A q × σ} {P : Q → σ → Prop} {d : Dialogue Q A ρ}
    {f : ρ → Dialogue Q A τ} {s : σ} :
    Along handler P (d.bind f) s
      ↔ Along handler P d s ∧ Along handler P (f (play handler d s).1) (play handler d s).2 := by
  induction d generalizing s with
  | done r => simp [bind, Along, play]
  | ask q k ih => simp [bind, Along, play, ih, and_assoc]

/-- The questions of such a run, in order. -/
def trace (handler : (q : Q) → σ → A q × σ) : Dialogue Q A ρ → σ → List Q
  | done _, _ => []
  | ask q k, s => q :: trace handler (k (handler q s).1) (handler q s).2

theorem trace_bind {handler : (q : Q) → σ → A q × σ} (d : Dialogue Q A ρ) (f : ρ → Dialogue Q A τ)
    (s : σ) :
    trace handler (d.bind f) s
      = trace handler d s ++ trace handler (f (play handler d s).1) (play handler d s).2 := by
  induction d generalizing s with
  | done r => rfl
  | ask q k ih => exact congrArg (q :: ·) (ih _ _)

/-- Questions with their answers, in the order they came. -/
abbrev Transcript (Q : Type) (A : Q → Type) := List ((q : Q) × A q)

/-- What a run against fixed answers asks and is told. -/
def transcript (view : (q : Q) → Except ε (A q)) : Dialogue Q A ρ → Transcript Q A
  | done _ => []
  | ask q k =>
      match view q with
      | .ok a => ⟨q, a⟩ :: transcript view (k a)
      | .error _ => []

theorem of_mem_transcript {view : (q : Q) → Except ε (A q)} {d : Dialogue Q A ρ}
    {entry : (q : Q) × A q} (h : entry ∈ transcript view d) : view entry.1 = .ok entry.2 := by
  induction d with
  | done r => cases h
  | ask q k ih =>
      rw [transcript] at h
      cases hq : view q with
      | error e =>
          rw [hq] at h
          cases h
      | ok a =>
          rw [hq] at h
          rcases List.mem_cons.mp h with rfl | h
          · exact hq
          · exact ih a h

/-- Views that agree on what is asked tell a run the same. -/
theorem transcript_congr {v v' : (q : Q) → Except ε (A q)} {d : Dialogue Q A ρ}
    (h : ∀ q ∈ asked v d, v' q = v q) : transcript v' d = transcript v d ∧ eval v' d = eval v d := by
  induction d with
  | done r => exact ⟨rfl, rfl⟩
  | ask q k ih =>
      have hq : v' q = v q := h q (mem_asked_ask.mpr (.inl rfl))
      simp only [transcript, eval, hq]
      cases hv : v q with
      | error e => exact ⟨rfl, rfl⟩
      | ok a =>
          obtain ⟨htranscript, heval⟩ := ih a fun q' hq' => h q' (mem_asked_ask.mpr (.inr ⟨a, hv, hq'⟩))
          exact ⟨congrArg (⟨q, a⟩ :: ·) htranscript, heval⟩

/-- Where a view that always answers tells a run what another says, that one is asked the same. -/
theorem agree_of_transcript {ε' : Type} {v : (q : Q) → Except ε (A q)}
    {v' : (q : Q) → Except ε' (A q)} {d : Dialogue Q A ρ} (htotal : ∀ q, ∃ a, v q = .ok a)
    (h : ∀ entry ∈ transcript v d, v' entry.1 = .ok entry.2) :
    ∀ q ∈ asked v' d, ∃ a, v q = .ok a ∧ v' q = .ok a := by
  induction d with
  | done r =>
      intro q hq
      cases hq
  | ask q k ih =>
      intro q' hq'
      obtain ⟨a, ha⟩ := htotal q
      rw [transcript, ha] at h
      obtain ⟨hhead, htail⟩ := List.forall_mem_cons.mp h
      rcases mem_asked_ask.mp hq' with heq | ⟨a', ha', hq'⟩
      · subst heq
        exact ⟨a, ha, hhead⟩
      · obtain rfl : a = a' := Except.ok.inj (hhead.symm.trans ha')
        exact ih a htail q' hq'

/-- Each question answered by a computation of its own; one that fails ends the run. -/
def interp (f : (q : Q) → Dialogue Q' A' (Except ε (A q))) :
    Dialogue Q A ρ → Transcript Q A → Dialogue Q' A' (Transcript Q A × Except ε ρ)
  | done r, told => done (told, .ok r)
  | ask q k, told => (f q).bind fun answer =>
      match answer with
      | .ok a => interp f (k a) (told ++ [⟨q, a⟩])
      | .error e => done (told, .error e)

/-- A run in which every answer, also a failing one at its end, is one that the question can get. -/
inductive Ran (holds : (q : Q) → Except ε (A q) → Prop) :
    Dialogue Q A ρ → Transcript Q A → Except ε ρ → Prop
  | done (r : ρ) : Ran holds (done r) [] (.ok r)
  | failed {q : Q} (k : A q → Dialogue Q A ρ) {e : ε} : holds q (.error e) →
      Ran holds (ask q k) [] (.error e)
  | answered {q : Q} {k : A q → Dialogue Q A ρ} {a : A q} {told : Transcript Q A} {r : Except ε ρ} :
      holds q (.ok a) → Ran holds (k a) told r → Ran holds (ask q k) (⟨q, a⟩ :: told) r

/-- What such a run is told. -/
theorem Ran.told {holds : (q : Q) → Except ε (A q) → Prop} {d : Dialogue Q A ρ}
    {told : Transcript Q A} {r : Except ε ρ} (h : d.Ran holds told r) :
    ∀ entry ∈ told, holds entry.1 (.ok entry.2) := by
  induction h with
  | done r => exact List.forall_mem_nil _
  | failed k he => exact List.forall_mem_nil _
  | answered ha _ ih => exact List.forall_mem_cons.mpr ⟨ha, ih⟩

end Dialogue
