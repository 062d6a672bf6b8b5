import Mathlib.Data.List.TakeWhile
import Mathlib.Tactic.Common

/-!
# Lines and blanks

Text files as their readers take them: lines end at a newline, with or without a
carriage return before it, and the last one may go without. What counts as blank is
Unicode's `White_Space`.
-/

namespace Text

/-- Unicode's `White_Space`. -/
def isWhitespace (c : Char) : Bool :=
  (0x09 ≤ c.toNat && c.toNat ≤ 0x0D) || c.toNat == 0x20 || c.toNat == 0x85 || c.toNat == 0xA0
    || c.toNat == 0x1680 || (0x2000 ≤ c.toNat && c.toNat ≤ 0x200A) || c.toNat == 0x2028
    || c.toNat == 0x2029 || c.toNat == 0x202F || c.toNat == 0x205F || c.toNat == 0x3000

/-- Printable ASCII is not blank. -/
theorem isWhitespace_of_printable {c : Char} (h : 0x21 ≤ c.toNat) (h' : c.toNat ≤ 0x7E) :
    isWhitespace c = false := by
  simp only [isWhitespace, Bool.or_eq_false_iff, Bool.and_eq_false_iff, decide_eq_false_iff_not,
    beq_eq_false_iff_ne]
  omega

/-- Without the white space at both ends. -/
def trim (cs : List Char) : List Char :=
  ((cs.dropWhile isWhitespace).reverse.dropWhile isWhitespace).reverse

theorem trim_of_forall {cs : List Char} (h : ∀ c ∈ cs, isWhitespace c = false) : trim cs = cs := by
  have hdrop : ∀ l : List Char, (∀ c ∈ l, isWhitespace c = false) → l.dropWhile isWhitespace = l := by
    intro l hl
    cases l with
    | nil => rfl
    | cons c l => exact List.dropWhile_cons_of_neg (by simp [hl c List.mem_cons_self])
  rw [trim, hdrop cs h, hdrop _ fun c hc => h c (List.mem_reverse.mp hc), List.reverse_reverse]

/-- What starts and ends with something has nothing to trim. -/
theorem trim_of_ends {c d : Char} (hc : isWhitespace c = false) (hd : isWhitespace d = false)
    (cs : List Char) : trim (c :: (cs ++ [d])) = c :: (cs ++ [d]) := by
  have hrev : (c :: (cs ++ [d])).reverse = d :: (c :: cs).reverse := by simp
  rw [trim, List.dropWhile_cons_of_neg (by simp [hc]), hrev,
    List.dropWhile_cons_of_neg (by simp [hd]), ← hrev, List.reverse_reverse]

/-- What starts with something is not blank. -/
theorem trim_cons_ne_nil {c : Char} {cs : List Char} (h : isWhitespace c = false) :
    trim (c :: cs) ≠ [] := by
  rw [trim, List.dropWhile_cons_of_neg (by simp [h]), Ne, List.reverse_eq_nil_iff,
    List.dropWhile_eq_nil_iff]
  intro hall
  have := hall c (by simp)
  rw [h] at this
  cases this

/-- The first `n` bytes of a text as text, unless they end inside a character. -/
def takeBytes : Nat → List Char → Option (List Char)
  | 0, _ => some []
  | _ + 1, [] => some []
  | n + 1, c :: cs =>
      if c.utf8Size ≤ n + 1 then (takeBytes (n + 1 - c.utf8Size) cs).map (c :: ·) else none

/-- The longest beginning of a text that takes at most `n` bytes. -/
def wholeChars (n : Nat) : List Char → List Char
  | [] => []
  | c :: cs => if c.utf8Size ≤ n then c :: wholeChars (n - c.utf8Size) cs else []

/-- Where the bytes end between characters, the text they are is the longest beginning. -/
theorem wholeChars_of_takeBytes {n : Nat} {cs ds : List Char} (h : takeBytes n cs = some ds) :
    wholeChars n cs = ds := by
  induction cs generalizing n ds with
  | nil => cases n <;> simpa [takeBytes, wholeChars] using h
  | cons c cs ih =>
      cases n with
      | zero =>
          have hsize : ¬ c.utf8Size ≤ 0 := by
            have := c.utf8Size_pos
            omega
          rw [wholeChars, if_neg hsize]
          simpa [takeBytes] using h
      | succ n =>
          rw [takeBytes] at h
          split at h
          · rename_i hle
            obtain ⟨es, hes, rfl⟩ := Option.map_eq_some_iff.mp h
            rw [wholeChars, if_pos hle, ih hes]
          · cases h

/-- A line without the carriage return at its end. -/
def dropReturn (cs : List Char) : List Char :=
  if cs.getLast? = some '\r' then cs.dropLast else cs

/-- The lines of a text, of the first of which `cur` has been read. -/
def linesFrom (cur : List Char) : List Char → List (List Char)
  | [] => if cur.isEmpty then [] else [cur]
  | c :: cs => if c = '\n' then dropReturn cur :: linesFrom [] cs else linesFrom (cur ++ [c]) cs

def lines (cs : List Char) : List (List Char) := linesFrom [] cs

/-- Each line and a newline. -/
def unlines (ls : List (List Char)) : List Char := ls.flatMap (fun l => l ++ ['\n'])

theorem linesFrom_append {l : List Char} (h : '\n' ∉ l) (cur cs : List Char) :
    linesFrom cur (l ++ cs) = linesFrom (cur ++ l) cs := by
  induction l generalizing cur with
  | nil => simp
  | cons c l ih =>
      rw [List.mem_cons, not_or] at h
      rw [List.cons_append, linesFrom, if_neg (Ne.symm h.1), ih h.2, List.append_assoc,
        List.singleton_append]

/-- **Lines that are written are read back**, if they hold no line end of their own. -/
theorem lines_unlines {ls : List (List Char)}
    (h : ∀ l ∈ ls, '\n' ∉ l ∧ l.getLast? ≠ some '\r') : lines (unlines ls) = ls := by
  induction ls with
  | nil => rfl
  | cons l ls ih =>
      obtain ⟨hn, hr⟩ := h l List.mem_cons_self
      rw [unlines, List.flatMap_cons, List.append_assoc, lines, linesFrom_append hn, List.nil_append,
        List.singleton_append, linesFrom, if_pos rfl, dropReturn, if_neg hr]
      exact congrArg (l :: ·) (ih fun l' hl' => h l' (List.mem_cons_of_mem l hl'))

end Text
