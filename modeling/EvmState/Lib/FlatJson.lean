import EvmState.Lib.Radix

/-!
# Flat JSON objects

Objects of strings and natural numbers, as text. `render` writes one without spaces;
what a reader must make of that text is `Reads`, which any JSON library satisfies for
*plain* objects, whose strings need no escapes. `parse` is such a reader, for text of
this form only.
-/

namespace FlatJson

/-- A member's value; `other` is any value that is no string and no natural number. -/
inductive Scalar where
  | str (s : String)
  | num (n : Nat)
  | other
deriving DecidableEq, Repr

/-- The members of an object, in order. -/
abbrev Obj := List (String × Scalar)

/-- Printable ASCII that stands for itself in a JSON string. -/
def plainChar (c : Char) : Bool := 0x20 ≤ c.toNat && c.toNat ≤ 0x7E && c != '"' && c != '\\'

def plainString (s : String) : Bool := s.toList.all plainChar

/-- Digits are plain. -/
theorem plainChar_of_digitVal {c : Char} {d : Nat} (h : Radix.digitVal c = some d) :
    plainChar c = true := by
  obtain ⟨h1, h2⟩ := Radix.printable_of_digitVal h
  have hquote : c ≠ '"' := by
    intro heq
    subst heq
    cases h
  have hslash : c ≠ '\\' := by
    intro heq
    subst heq
    cases h
  simp only [plainChar, Bool.and_eq_true, decide_eq_true_eq, bne_iff_ne]
  exact ⟨⟨⟨by omega, by omega⟩, hquote⟩, hslash⟩

/-- No escapes are needed, and numbers fit a machine word. -/
def plainMember : String × Scalar → Bool
  | (k, .str s) => plainString k && plainString s
  | (k, .num n) => plainString k && n < 2 ^ 64
  | (_, .other) => false

def Plain (o : Obj) : Prop := ∀ f ∈ o, plainMember f = true

/-! ## Writing -/

def renderString (s : String) : List Char := '"' :: s.toList ++ ['"']

def renderScalar : Scalar → List Char
  | .str s => renderString s
  | .num n => Nat.toDigits 10 n
  | .other => "null".toList

def renderMember (f : String × Scalar) : List Char := renderString f.1 ++ ':' :: renderScalar f.2

/-- The members behind the first, each after a comma, and the closing brace. -/
def renderRest (o : Obj) : List Char := o.flatMap (fun f => ',' :: renderMember f) ++ ['\x7d']

def render : Obj → List Char
  | [] => ['\x7b', '\x7d']
  | f :: o => '\x7b' :: renderMember f ++ renderRest o

theorem printable_renderString {s : String} (h : plainString s = true) {c : Char}
    (hc : c ∈ renderString s) : 0x20 ≤ c.toNat := by
  simp only [renderString, List.cons_append, List.mem_cons, List.mem_append, List.not_mem_nil,
    or_false] at hc
  rcases hc with rfl | hc | rfl
  · decide
  · have := List.all_eq_true.mp h c hc
    simp only [plainChar, Bool.and_eq_true, decide_eq_true_eq] at this
    exact this.1.1.1
  · decide

theorem printable_renderMember {f : String × Scalar} (h : plainMember f = true) {c : Char}
    (hc : c ∈ renderMember f) : 0x20 ≤ c.toNat := by
  obtain ⟨k, v⟩ := f
  rw [renderMember, List.mem_append, List.mem_cons] at hc
  cases v with
  | str s =>
      obtain ⟨hk, hs⟩ := Bool.and_eq_true_iff.mp h
      rcases hc with hc | rfl | hc
      · exact printable_renderString hk hc
      · decide
      · exact printable_renderString hs hc
  | num n =>
      rcases hc with hc | rfl | hc
      · exact printable_renderString (Bool.and_eq_true_iff.mp h).1 hc
      · decide
      · obtain ⟨d, hd, _⟩ := Radix.digitVal_of_toDigits (by omega) (by omega) hc
        exact Nat.le_trans (by omega) (Radix.printable_of_digitVal hd).1
  | other => cases h

/-- Rendered text has no line ends: it is printable. -/
theorem printable_render {o : Obj} (h : Plain o) {c : Char} (hc : c ∈ render o) :
    0x20 ≤ c.toNat := by
  cases o with
  | nil =>
      simp only [render, List.mem_cons, List.not_mem_nil, or_false] at hc
      rcases hc with rfl | rfl <;> decide
  | cons f o =>
      simp only [render, renderRest, List.cons_append, List.mem_cons, List.mem_append,
        List.mem_flatMap, List.not_mem_nil, or_false] at hc
      rcases hc with rfl | hc | ⟨f', hf', rfl | hc⟩ | rfl
      · decide
      · exact printable_renderMember (h f List.mem_cons_self) hc
      · decide
      · exact printable_renderMember (h f' (List.mem_cons_of_mem f hf')) hc
      · decide

/-- What a JSON reader makes of plain objects. -/
def Reads (reader : String → Option Obj) : Prop :=
  ∀ o, Plain o → reader (String.ofList (render o)) = some o

/-! ## Reading -/

/-- The string up to the closing quote, and what follows. -/
def readString : List Char → Option (List Char × List Char)
  | [] => none
  | c :: cs => if c = '"' then some ([], cs) else (readString cs).map fun r => (c :: r.1, r.2)

/-- A value and what follows. -/
def readScalar (cs : List Char) : Option (Scalar × List Char) :=
  match cs with
  | [] => none
  | c :: rest =>
      if c = '"' then (readString rest).map fun r => (.str (String.ofList r.1), r.2)
      else if c.isDigit then
        (Radix.readDigits 10 (cs.takeWhile Char.isDigit)).map fun n =>
          (.num n, cs.dropWhile Char.isDigit)
      else none

/-- A member and what follows. -/
def readMember (cs : List Char) : Option ((String × Scalar) × List Char) :=
  match cs with
  | '"' :: cs =>
      match readString cs with
      | some (k, ':' :: cs) => (readScalar cs).map fun r => ((String.ofList k, r.1), r.2)
      | _ => none
  | _ => none

/-- At most `n` further members, and the closing brace. -/
def readRest : Nat → List Char → Option Obj
  | _, ['\x7d'] => some []
  | n + 1, ',' :: cs =>
      match readMember cs with
      | some (f, cs) => (readRest n cs).map (f :: ·)
      | none => none
  | _, _ => none

/-- Read the text of an object as it is rendered. -/
def parse (text : String) : Option Obj :=
  match text.toList with
  | '\x7b' :: cs =>
      if cs = ['\x7d'] then some []
      else
        match readMember cs with
        | some (f, cs) => (readRest cs.length cs).map (f :: ·)
        | none => none
  | _ => none

theorem readString_render {s : List Char} (h : '"' ∉ s) (cs : List Char) :
    readString (s ++ '"' :: cs) = some (s, cs) := by
  induction s with
  | nil => rfl
  | cons c s ih =>
      rw [List.mem_cons, not_or] at h
      rw [List.cons_append, readString, if_neg (Ne.symm h.1), ih h.2]
      rfl

theorem quote_not_mem {s : String} (h : plainString s = true) : '"' ∉ s.toList := by
  intro hm
  have := List.all_eq_true.mp h _ hm
  cases this

theorem readScalar_render {v : Scalar} {k : String} (h : plainMember (k, v) = true)
    {c : Char} {cs : List Char} (hc : c.isDigit = false) :
    readScalar (renderScalar v ++ c :: cs) = some (v, c :: cs) := by
  cases v with
  | str s =>
      have hs : plainString s = true := (Bool.and_eq_true_iff.mp h).2
      rw [renderScalar, renderString, List.append_assoc, List.cons_append, readScalar, if_pos rfl]
      simp only [List.singleton_append]
      rw [readString_render (quote_not_mem hs)]
      simp
  | num n =>
      have hdigits : ∀ d ∈ Nat.toDigits 10 n, d.isDigit = true := fun d hd =>
        Nat.isDigit_of_mem_toDigits (by omega) (by omega) hd
      have htake : (Nat.toDigits 10 n ++ c :: cs).takeWhile Char.isDigit = Nat.toDigits 10 n := by
        rw [List.takeWhile_append_of_pos hdigits, List.takeWhile_cons_of_neg (by simp [hc]),
          List.append_nil]
      have hdrop : (Nat.toDigits 10 n ++ c :: cs).dropWhile Char.isDigit = c :: cs := by
        rw [List.dropWhile_append_of_pos hdigits, List.dropWhile_cons_of_neg (by simp [hc])]
      rw [renderScalar]
      cases hd : Nat.toDigits 10 n with
      | nil => exact absurd hd Nat.toDigits_ne_nil
      | cons d ds =>
          have hfirst : d.isDigit = true := hdigits d (hd ▸ List.mem_cons_self)
          have hquote : d ≠ '"' := by
            intro heq
            subst heq
            cases hfirst
          rw [hd] at htake hdrop
          rw [List.cons_append] at htake hdrop ⊢
          simp only [readScalar]
          rw [if_neg hquote, if_pos hfirst, htake, hdrop, ← hd,
            Radix.readDigits_toDigits (by omega) (by omega)]
          rfl
  | other => cases h

theorem readMember_render {f : String × Scalar} (h : plainMember f = true) {c : Char}
    {cs : List Char} (hc : c.isDigit = false) :
    readMember (renderMember f ++ c :: cs) = some (f, c :: cs) := by
  obtain ⟨k, v⟩ := f
  have hk : plainString k = true := by
    cases v with
    | str s => exact (Bool.and_eq_true_iff.mp h).1
    | num n => exact (Bool.and_eq_true_iff.mp h).1
    | other => cases h
  have hkey : renderMember (k, v) ++ c :: cs
      = '"' :: (k.toList ++ '"' :: (':' :: (renderScalar v ++ c :: cs))) := by
    simp [renderMember, renderString]
  rw [hkey, readMember, readString_render (quote_not_mem hk)]
  simp only [readScalar_render h hc, Option.map_some, String.ofList_toList]

theorem readRest_render {o : Obj} (h : Plain o) {n : Nat} (hn : o.length ≤ n) :
    readRest n (renderRest o) = some o := by
  induction o generalizing n with
  | nil => cases n <;> rfl
  | cons f o ih =>
      cases n with
      | zero => cases hn
      | succ n =>
          have hf := h f List.mem_cons_self
          have ho : Plain o := fun f' hf' => h f' (List.mem_cons_of_mem f hf')
          obtain ⟨c, cs, hrest, hc⟩ : ∃ c cs, renderRest o = c :: cs ∧ c.isDigit = false := by
            cases o with
            | nil => exact ⟨_, _, rfl, by decide⟩
            | cons f' o => exact ⟨_, _, rfl, by decide⟩
          have hcons : renderRest (f :: o) = ',' :: (renderMember f ++ renderRest o) := by
            simp [renderRest]
          rw [hcons, hrest, readRest, readMember_render hf hc]
          simp only
          rw [← hrest, ih ho (Nat.le_of_succ_le_succ hn), Option.map_some]

theorem length_le_renderRest (o : Obj) : o.length ≤ (renderRest o).length := by
  induction o with
  | nil => exact Nat.zero_le _
  | cons f o ih =>
      have hcons : renderRest (f :: o) = ',' :: (renderMember f ++ renderRest o) := by
        simp [renderRest]
      rw [hcons, List.length_cons, List.length_cons, List.length_append]
      omega

/-- **What is rendered is read back.** -/
theorem parse_render : Reads parse := by
  intro o ho
  cases o with
  | nil => rfl
  | cons f o =>
      have hf := ho f List.mem_cons_self
      have hrest : Plain o := fun f' hf' => ho f' (List.mem_cons_of_mem f hf')
      obtain ⟨c, cs, hc, hdigit⟩ : ∃ c cs, renderRest o = c :: cs ∧ c.isDigit = false := by
        cases o with
        | nil => exact ⟨_, _, rfl, by decide⟩
        | cons f' o => exact ⟨_, _, rfl, by decide⟩
      have hne : renderMember f ++ renderRest o ≠ ['\x7d'] := by
        rw [renderMember, renderString, List.append_assoc, List.cons_append, List.cons_append]
        intro h
        cases h
      rw [parse, String.toList_ofList]
      simp only [render, List.cons_append]
      rw [if_neg hne, hc, readMember_render hf hdigit]
      simp only
      rw [← hc, readRest_render hrest (length_le_renderRest o), Option.map_some]

end FlatJson
