import Mathlib.Tactic.Common

/-!
# Retrying a bounded number of times

A request is attempted over and over, and each attempt is looked at: it either settles
the request or asks for another one, for a reason that is kept. What comes of it is what
the first attempt that settles says (`run_settled`), as long as there are attempts left.
Attempts that do not settle may as well not have been made (`run_delayed`), if enough are
left behind them.
-/

namespace Retry

variable {α β ε : Type}

/-- What an attempt means. -/
inductive Verdict (ε β : Type) where
  | again (reason : ε)
  | settled (result : Except ε β)

def Verdict.isAgain : Verdict ε β → Bool
  | .again _ => true
  | .settled _ => false

variable (verdict : α → Verdict ε β) (tape : Nat → α)

/-- The attempts from `attempt` on, of which `left` may be made; `last` is the reason for them. -/
def run (attempt : Nat) (last : ε) : Nat → Except ε β
  | 0 => .error last
  | left + 1 =>
      match verdict (tape attempt) with
      | .again reason => run (attempt + 1) reason left
      | .settled result => result

/-- How many of them are made. -/
def tries (attempt : Nat) : Nat → Nat
  | 0 => 0
  | left + 1 => if (verdict (tape attempt)).isAgain then 1 + tries (attempt + 1) left else 1

/-- From this attempt on, `n` do not settle and the next one does. -/
structure SettlesAt (attempt n : Nat) (result : Except ε β) : Prop where
  before : ∀ j < n, (verdict (tape (attempt + j))).isAgain = true
  settled : verdict (tape (attempt + n)) = .settled result

/-- Some attempts, and then those of another tape. -/
def delayed (front : List α) (tape : Nat → α) (attempt : Nat) : α :=
  match front[attempt]? with
  | some a => a
  | none => tape (attempt - front.length)

variable {verdict tape}

theorem tries_le (attempt left : Nat) : tries verdict tape attempt left ≤ left := by
  induction left generalizing attempt with
  | zero => exact Nat.le_refl 0
  | succ left ih =>
      have := ih (attempt + 1)
      rw [tries]
      split <;> omega

theorem SettlesAt.tail {attempt n : Nat} {result : Except ε β}
    (h : SettlesAt verdict tape attempt (n + 1) result) :
    SettlesAt verdict tape (attempt + 1) n result where
  before j hj := by
    have := h.before (j + 1) (by omega)
    rwa [Nat.add_assoc, Nat.add_comm 1]
  settled := by
    have := h.settled
    rwa [Nat.add_assoc, Nat.add_comm 1]

/-- **The first attempt that settles decides.** -/
theorem run_settled {attempt n left : Nat} {result : Except ε β} (last : ε)
    (h : SettlesAt verdict tape attempt n result) (hn : n < left) :
    run verdict tape attempt last left = result := by
  induction n generalizing attempt last left with
  | zero =>
      obtain ⟨left, rfl⟩ : ∃ l, left = l + 1 := ⟨left - 1, by omega⟩
      have hsettled := h.settled
      rw [Nat.add_zero] at hsettled
      rw [run, hsettled]
  | succ n ih =>
      obtain ⟨left, rfl⟩ : ∃ l, left = l + 1 := ⟨left - 1, by omega⟩
      have hagain := h.before 0 (Nat.succ_pos n)
      rw [Nat.add_zero] at hagain
      rw [run]
      cases hv : verdict (tape attempt) with
      | again reason => exact ih reason h.tail (by omega)
      | settled r =>
          rw [hv] at hagain
          cases hagain

/-- Attempts in front that do not settle put off the one that does. -/
theorem SettlesAt.delayed {front : List α} {n : Nat} {result : Except ε β}
    (h : SettlesAt verdict tape 0 n result)
    (hfront : ∀ a ∈ front, (verdict a).isAgain = true) :
    SettlesAt verdict (delayed front tape) 0 (front.length + n) result where
  before j hj := by
    rw [Nat.zero_add, Retry.delayed]
    cases hat : front[j]? with
    | some a => exact hfront a (List.mem_of_getElem? hat)
    | none =>
        have hlen := List.getElem?_eq_none_iff.mp hat
        have := h.before (j - front.length) (by omega)
        rwa [Nat.zero_add] at this
  settled := by
    have hnone : front[front.length + n]? = none := List.getElem?_eq_none_iff.mpr (by omega)
    rw [Nat.zero_add, Retry.delayed, hnone]
    have := h.settled
    rw [Nat.zero_add] at this
    simpa using this

/-- **Attempts that do not settle change nothing**, as long as enough are left. -/
theorem run_delayed {front : List α} {n left : Nat} {result : Except ε β} (last : ε)
    (h : SettlesAt verdict tape 0 n result)
    (hfront : ∀ a ∈ front, (verdict a).isAgain = true) (hn : front.length + n < left) :
    run verdict (delayed front tape) 0 last left = run verdict tape 0 last left := by
  rw [run_settled last (h.delayed hfront) hn, run_settled last h (by omega)]

end Retry
