import Mathlib.Tactic.Common

/-!
# Reading records field by field

A record comes as what was found for each of its fields, in the order they are declared,
where a field may have been left out. A `Reader` takes them one after another. `Reads`
says what a reader makes of some slots whatever comes behind them, so that what is known of
single fields composes to the record (`Reads.cons`, `Reads.pure`).
-/

namespace Record

variable {V α β : Type}

/-- Takes some slots off the front, each with what was found for a field. -/
abbrev Reader (V : Type) := StateT (List (Option V)) Option

/-- Take the next slot. -/
def next (read : Option V → Option α) : Reader V α := fun slots =>
  match slots with
  | [] => none
  | slot :: rest => (read slot).map fun a => (a, rest)

/-- The reader takes exactly these slots, and makes this of them. -/
def Reads (r : Reader V α) (slots : List (Option V)) (a : α) : Prop :=
  ∀ rest, r (slots ++ rest) = some (a, rest)

/-- The reader does not get through these slots. -/
def Fails (r : Reader V α) (slots : List (Option V)) : Prop := ∀ rest, r (slots ++ rest) = none

theorem Reads.pure (a : α) : Reads (V := V) (Pure.pure a) [] a := fun _ => rfl

theorem Reads.cons {read : Option V → Option α} {f : α → Reader V β} {slot : Option V}
    {slots : List (Option V)} {a : α} {b : β} (h : read slot = some a)
    (hf : Reads (f a) slots b) : Reads (next read >>= f) (slot :: slots) b := by
  intro rest
  have hnext : next read (slot :: (slots ++ rest)) = some (a, slots ++ rest) := by
    simp only [next, h, Option.map_some]
  calc (next read >>= f) (slot :: slots ++ rest)
      = (next read (slot :: (slots ++ rest))).bind fun p => f p.1 p.2 := rfl
    _ = f a (slots ++ rest) := by rw [hnext, Option.bind_some]
    _ = some (b, rest) := hf rest

theorem Fails.cons {read : Option V → Option α} {f : α → Reader V β} {slot : Option V}
    (slots : List (Option V)) (h : read slot = none) : Fails (next read >>= f) (slot :: slots) := by
  intro rest
  have hnext : next read (slot :: (slots ++ rest)) = none := by
    simp only [next, h, Option.map_none]
  calc (next read >>= f) (slot :: slots ++ rest)
      = (next read (slot :: (slots ++ rest))).bind fun p => f p.1 p.2 := rfl
    _ = none := by rw [hnext, Option.bind_none]

/-- A field that reads does not help. -/
theorem Fails.behind {read : Option V → Option α} {f : α → Reader V β} {slot : Option V}
    {slots : List (Option V)} {a : α} (h : read slot = some a) (hf : Fails (f a) slots) :
    Fails (next read >>= f) (slot :: slots) := by
  intro rest
  have hnext : next read (slot :: (slots ++ rest)) = some (a, slots ++ rest) := by
    simp only [next, h, Option.map_some]
  calc (next read >>= f) (slot :: slots ++ rest)
      = (next read (slot :: (slots ++ rest))).bind fun p => f p.1 p.2 := rfl
    _ = f a (slots ++ rest) := by rw [hnext, Option.bind_some]
    _ = none := hf rest

/-- What a reader makes of a whole record. -/
def readAll (r : Reader V α) (slots : List (Option V)) : Option α := (r slots).map Prod.fst

theorem Reads.readAll {r : Reader V α} {slots : List (Option V)} {a : α} (h : Reads r slots a) :
    readAll r slots = some a := by
  have := h []
  rw [List.append_nil] at this
  rw [Record.readAll, this, Option.map_some]

theorem Fails.readAll {r : Reader V α} {slots : List (Option V)} (h : Fails r slots) :
    readAll r slots = none := by
  have := h []
  rw [List.append_nil] at this
  rw [Record.readAll, this, Option.map_none]

end Record
