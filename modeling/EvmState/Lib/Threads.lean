import EvmState.Lib.Dialogue

/-!
# Threads that share a state

Each thread of a `Pool` is a `Dialogue`, and each of its questions is answered in one
go from the state they share. Between two questions of one thread come those of the
others, threads that start, and what the environment does to the state on its own: a
`Run` is any order of these.

An invariant of the shared state is proved thread by thread. `Safe` says that a
computation keeps it with every question it asks, whatever the state is by then, and
ends with a result that is as it should be. What a thread has been told it may rely
on, what it has seen of the state it may not. Two rules lead from there to runs:

* `Run.each`: if every thread that starts is safe, the invariant holds, and each thread
  ends as it should (`Run.invariant`, where they are all to end alike);
* `Run.thread`: one safe thread stays so among others that do not break the
  invariant.
-/

namespace Threads

/-- A shared state and what each thread still has to do. -/
structure Pool (Q : Type) (A : Q → Type) (ρ σ : Type) where
  shared : σ
  threads : List (Dialogue Q A ρ)

/-- What happens next. -/
inductive Event (Q : Type) where
  | environment
  | start
  | answer (i : Nat) (q : Q)

variable {Q : Type} {A : Q → Type} {ρ τ σ : Type}

section Semantics

variable (handler : (q : Q) → σ → A q × σ) (env : σ → σ → Prop) (starts : Dialogue Q A ρ → Prop)

inductive Step : Pool Q A ρ σ → Event Q → Pool Q A ρ σ → Prop
  | environment {s s' : σ} {ts : List (Dialogue Q A ρ)} : env s s' →
      Step ⟨s, ts⟩ .environment ⟨s', ts⟩
  | start {s : σ} {ts : List (Dialogue Q A ρ)} {d : Dialogue Q A ρ} : starts d →
      Step ⟨s, ts⟩ .start ⟨s, ts ++ [d]⟩
  | answer {s : σ} {ts : List (Dialogue Q A ρ)} {i : Nat} {q : Q} {k : A q → Dialogue Q A ρ} :
      ts[i]? = some (.ask q k) →
      Step ⟨s, ts⟩ (.answer i q) ⟨(handler q s).2, ts.set i (k (handler q s).1)⟩

/-- Any order of steps, each of which meets a condition on it and on the state in front of it. -/
inductive Run (ok : Pool Q A ρ σ → Event Q → Prop) : Pool Q A ρ σ → Pool Q A ρ σ → Prop
  | refl (p : Pool Q A ρ σ) : Run ok p p
  | step {p₀ p p' : Pool Q A ρ σ} {e : Event Q} : Run ok p₀ p → ok p e →
      Step handler env starts p e p' → Run ok p₀ p'

end Semantics

/-- An answered thread goes on with its answer. -/
theorem Step.answered {handler : (q : Q) → σ → A q × σ} {env : σ → σ → Prop}
    {starts : Dialogue Q A ρ → Prop} {p p' : Pool Q A ρ σ} {i : Nat} {q : Q}
    {k : A q → Dialogue Q A ρ} (h : Step handler env starts p (.answer i q) p')
    (hi : p.threads[i]? = some (.ask q k)) :
    p'.shared = (handler q p.shared).2 ∧ p'.threads[i]? = some (k (handler q p.shared).1) := by
  cases h with
  | answer hk =>
      cases Option.some.inj (hi.symm.trans hk)
      exact ⟨rfl, List.getElem?_set_self (List.getElem?_eq_some_iff.mp hk).1⟩

/-! ## Safe computations -/

/-- Every question, asked when it is `allowed`, keeps the invariant, and the result is as it should be. -/
def Safe (handler : (q : Q) → σ → A q × σ) (I : σ → Prop) (allowed : σ → Q → Prop)
    (post : ρ → Prop) : Dialogue Q A ρ → Prop
  | .done r => post r
  | .ask q k => ∀ s, I s → allowed s q →
      I (handler q s).2 ∧ Safe handler I allowed post (k (handler q s).1)

section Safe

variable {handler : (q : Q) → σ → A q × σ} {I : σ → Prop} {allowed : σ → Q → Prop}

/-- Safe computations follow one another. -/
theorem Safe.bind {mid : ρ → Prop} {post : τ → Prop} {d : Dialogue Q A ρ}
    {f : ρ → Dialogue Q A τ} (hd : Safe handler I allowed mid d)
    (hf : ∀ r, mid r → Safe handler I allowed post (f r)) :
    Safe handler I allowed post (d.bind f) := by
  induction d with
  | done r => exact hf r hd
  | ask q k ih =>
      intro s hs hok
      obtain ⟨hI, hk⟩ := hd s hs hok
      exact ⟨hI, ih _ hk⟩

/-- A weaker claim about the result. -/
theorem Safe.imp {mid post : ρ → Prop} {d : Dialogue Q A ρ}
    (hd : Safe handler I allowed mid d) (h : ∀ r, mid r → post r) :
    Safe handler I allowed post d := by
  induction d with
  | done r => exact h r hd
  | ask q k ih =>
      intro s hs hok
      obtain ⟨hI, hk⟩ := hd s hs hok
      exact ⟨hI, ih _ hk⟩

/-- A computation whose questions are answered by safe computations is safe. -/
theorem Safe.interp {Q' : Type} {A' : Q' → Type} {ε : Type}
    {f : (q : Q') → Dialogue Q A (Except ε (A' q))}
    (hf : ∀ q, Safe handler I allowed (fun _ => True) (f q)) (d : Dialogue Q' A' ρ)
    (told : Dialogue.Transcript Q' A') :
    Safe handler I allowed (fun _ => True) (d.interp f told) := by
  induction d generalizing told with
  | done r => trivial
  | ask q k ih =>
      rw [Dialogue.interp]
      refine (hf q).bind fun answer _ => ?_
      cases answer with
      | error e => trivial
      | ok a => exact ih a _

/-- If each question is answered as a view answers it, so is the whole computation. -/
theorem Safe.interp_eval {Q' : Type} {A' : Q' → Type} {ε : Type}
    {f : (q : Q') → Dialogue Q A (Except ε (A' q))} {v : (q : Q') → Except ε (A' q)}
    {d : Dialogue Q' A' ρ}
    (hf : ∀ q ∈ d.asked v, Safe handler I allowed (fun answer => answer = v q) (f q))
    (told : Dialogue.Transcript Q' A') :
    Safe handler I allowed (fun r => r = (told ++ d.transcript v, d.eval v)) (d.interp f told) := by
  induction d generalizing told with
  | done r => simp [Dialogue.interp, Safe, Dialogue.transcript, Dialogue.eval]
  | ask q k ih =>
      rw [Dialogue.interp, Dialogue.transcript, Dialogue.eval]
      refine (hf q (Dialogue.mem_asked_ask.mpr (.inl rfl))).bind fun answer hanswer => ?_
      subst hanswer
      cases hq : v q with
      | error e => simp [Safe]
      | ok a =>
          have := ih a (fun q' hq' => hf q' (Dialogue.mem_asked_ask.mpr (.inr ⟨a, hq, hq'⟩)))
            (told ++ [⟨q, a⟩])
          simpa using this

/-- If what is true of each answer is known, the computation runs on such answers. -/
theorem Safe.interp_ran {Q' : Type} {A' : Q' → Type} {ε : Type}
    {holds : (q : Q') → Except ε (A' q) → Prop} {f : (q : Q') → Dialogue Q A (Except ε (A' q))}
    (hf : ∀ q, Safe handler I allowed (holds q) (f q)) (d : Dialogue Q' A' ρ)
    (told : Dialogue.Transcript Q' A') :
    Safe handler I allowed (fun r => ∃ rest, r.1 = told ++ rest ∧ d.Ran holds rest r.2)
      (d.interp f told) := by
  induction d generalizing told with
  | done r => exact ⟨[], (List.append_nil told).symm, .done r⟩
  | ask q k ih =>
      rw [Dialogue.interp]
      refine (hf q).bind fun answer hanswer => ?_
      cases answer with
      | error e => exact ⟨[], (List.append_nil told).symm, .failed k hanswer⟩
      | ok a =>
          refine (ih a (told ++ [⟨q, a⟩])).imp ?_
          rintro r ⟨rest, hrest, hran⟩
          exact ⟨⟨q, a⟩ :: rest, by rw [hrest, List.append_assoc]; rfl, .answered hanswer hran⟩

variable {env : σ → σ → Prop} {starts : Dialogue Q A ρ → Prop} {post : ρ → Prop}
  {ok : Pool Q A ρ σ → Event Q → Prop} {p₀ p : Pool Q A ρ σ}

/-- A thread on its own has its question answered. -/
theorem Run.ask {s : σ} {q : Q} {k : A q → Dialogue Q A ρ}
    (hrun : Run handler env starts ok p₀ ⟨s, [.ask q k]⟩) (hok : ok ⟨s, [.ask q k]⟩ (.answer 0 q)) :
    Run handler env starts ok p₀ ⟨(handler q s).2, [k (handler q s).1]⟩ :=
  hrun.step hok (.answer rfl)

/-- A thread on its own plays to its end, if each question it comes to may be asked. -/
theorem Run.play {d : Dialogue Q A ρ} {s : σ}
    (hok : d.Along handler (fun q s => ∀ k, ok ⟨s, [.ask q k]⟩ (.answer 0 q)) s)
    (hrun : Run handler env starts ok p₀ ⟨s, [d]⟩) :
    Run handler env starts ok p₀ ⟨(d.play handler s).2, [.done (d.play handler s).1]⟩ := by
  induction d generalizing s with
  | done r => exact hrun
  | ask q k ih => exact ih _ hok.2 (hrun.ask (hok.1 k))

/-- **Safe threads keep the invariant**, in any order, and each one ends as it should. -/
theorem Run.each {posts : Nat → ρ → Prop} (hrun : Run handler env starts ok p₀ p) (hI : I p₀.shared)
    (hthreads : ∀ i d, p₀.threads[i]? = some d → Safe handler I allowed (posts i) d)
    (henv : ∀ s s', env s s' → I s → I s')
    (hstarts : ∀ d, starts d → ∀ i, p₀.threads.length ≤ i → Safe handler I allowed (posts i) d)
    (hok : ∀ (p : Pool Q A ρ σ) i q, ok p (.answer i q) → allowed p.shared q) :
    I p.shared ∧ p₀.threads.length ≤ p.threads.length
      ∧ ∀ i d, p.threads[i]? = some d → Safe handler I allowed (posts i) d := by
  induction hrun with
  | refl => exact ⟨hI, Nat.le_refl _, hthreads⟩
  | step _ hevent hstep ih =>
      obtain ⟨hI, hlen, hthreads⟩ := ih
      cases hstep with
      | environment he => exact ⟨henv _ _ he hI, hlen, hthreads⟩
      | @start s ts d hd =>
          have hlen' : p₀.threads.length ≤ (ts ++ [d]).length := by
            rw [List.length_append]
            exact Nat.le_trans hlen (Nat.le_add_right _ _)
          refine ⟨hI, hlen', fun i d' hi => ?_⟩
          by_cases hlt : i < ts.length
          · rw [List.getElem?_append_left hlt] at hi
            exact hthreads i d' hi
          · rw [List.getElem?_append_right (Nat.le_of_not_lt hlt)] at hi
            obtain rfl := List.mem_singleton.mp (List.mem_of_getElem? hi)
            exact hstarts _ hd i (Nat.le_trans hlen (Nat.le_of_not_lt hlt))
      | @answer s ts j q k hj =>
          obtain ⟨hI', hk⟩ := hthreads j _ hj _ hI (hok _ _ _ hevent)
          refine ⟨hI', by simpa using hlen, fun i d' hi => ?_⟩
          by_cases hij : j = i
          · subst hij
            rw [List.getElem?_set_self (List.getElem?_eq_some_iff.mp hj).1] at hi
            obtain rfl := Option.some.inj hi
            exact hk
          · rw [List.getElem?_set_ne hij] at hi
            exact hthreads i d' hi

/-- The same where all of them are to end alike. -/
theorem Run.invariant (hrun : Run handler env starts ok p₀ p) (hI : I p₀.shared)
    (hthreads : ∀ d ∈ p₀.threads, Safe handler I allowed post d)
    (henv : ∀ s s', env s s' → I s → I s')
    (hstarts : ∀ d, starts d → Safe handler I allowed post d)
    (hok : ∀ (p : Pool Q A ρ σ) i q, ok p (.answer i q) → allowed p.shared q) :
    I p.shared ∧ ∀ d ∈ p.threads, Safe handler I allowed post d := by
  obtain ⟨hI', _, hsafe⟩ := Run.each hrun hI (fun i d hi => hthreads d (List.mem_of_getElem? hi)) henv
    (fun d hd _ _ => hstarts d hd) hok
  refine ⟨hI', fun d hd => ?_⟩
  obtain ⟨i, hi⟩ := List.mem_iff_getElem?.mp hd
  exact hsafe i d hi

/-- A thread that has nothing answered stays where it is. -/
theorem Run.waiting {i : Nat} {d : Dialogue Q A ρ} (hrun : Run handler env starts ok p₀ p)
    (hi : p₀.threads[i]? = some d) (hok : ∀ p q, ¬ ok p (.answer i q)) : p.threads[i]? = some d := by
  induction hrun with
  | refl => exact hi
  | step _ hevent hstep ih =>
      cases hstep with
      | environment _ => exact ih
      | start _ => rw [List.getElem?_append_left (List.getElem?_eq_some_iff.mp ih).1, ih]
      | @answer s ts j q k hj =>
          have hji : j ≠ i := fun h => hok _ _ (h ▸ hevent)
          rw [List.getElem?_set_ne hji, ih]

/-- **One safe thread stays safe** among others that keep the invariant. -/
theorem Run.thread {i : Nat} {d : Dialogue Q A ρ} (hrun : Run handler env starts ok p₀ p)
    (hI : I p₀.shared) (hi : p₀.threads[i]? = some d) (hd : Safe handler I allowed post d)
    (henv : ∀ s s', env s s' → I s → I s')
    (hown : ∀ (p : Pool Q A ρ σ) q, ok p (.answer i q) → allowed p.shared q)
    (hother : ∀ (p : Pool Q A ρ σ) j q, ok p (.answer j q) → j ≠ i → I p.shared →
      I (handler q p.shared).2) :
    I p.shared ∧ ∃ d', p.threads[i]? = some d' ∧ Safe handler I allowed post d' := by
  induction hrun with
  | refl => exact ⟨hI, d, hi, hd⟩
  | step _ hevent hstep ih =>
      obtain ⟨hI, d', hi', hd'⟩ := ih
      cases hstep with
      | environment he => exact ⟨henv _ _ he hI, d', hi', hd'⟩
      | start _ =>
          refine ⟨hI, d', ?_, hd'⟩
          rw [List.getElem?_append_left (List.getElem?_eq_some_iff.mp hi').1]
          exact hi'
      | @answer s ts j q k hj =>
          by_cases hji : j = i
          · subst hji
            obtain rfl := Option.some.inj (hi'.symm.trans hj)
            obtain ⟨hI', hk⟩ := hd' s hI (hown _ _ hevent)
            exact ⟨hI', _, List.getElem?_set_self (List.getElem?_eq_some_iff.mp hj).1, hk⟩
          · refine ⟨hother _ _ _ hevent hji hI, d', ?_, hd'⟩
            rw [List.getElem?_set_ne hji]
            exact hi'

end Safe

end Threads
