import EvmState.Lib.FlatJson

/-!
# Nested JSON documents

Documents of scalars, truth values, arrays and objects, as text. As for flat objects, `render`
writes one without spaces, `Reads` is what any JSON library makes of that text where
the strings need no escapes, and `parse` is a reader for text of this form only.
-/

namespace Json

open FlatJson (Scalar renderScalar renderString readScalar readString plainString)

inductive Doc where
  | scalar (v : Scalar)
  | bool (b : Bool)
  | array (items : List Doc)
  | object (members : List (String × Doc))

/-- A string as a document. -/
abbrev Doc.str (s : String) : Doc := .scalar (.str s)

/-- A natural number as a document. -/
abbrev Doc.num (n : Nat) : Doc := .scalar (.num n)

/-- The member of an object with this name, the first of them. -/
def Doc.get : Doc → String → Option Doc
  | .object members, name => (members.find? (fun m => m.1 == name)).map Prod.snd
  | _, _ => none

/-- The string a document is. -/
def Doc.asStr : Doc → Option String
  | .scalar (.str s) => some s
  | _ => none

/-- The number a document is. -/
def Doc.asNum : Doc → Option Nat
  | .scalar (.num n) => some n
  | _ => none

/-- The truth value a document is. -/
def Doc.asBool : Doc → Option Bool
  | .bool b => some b
  | _ => none

/-- No escapes are needed, and numbers fit a machine word. -/
def plainScalar : Scalar → Bool
  | .str s => plainString s
  | .num n => n < 2 ^ 64
  | .other => false

mutual

def plain : Doc → Bool
  | .scalar v => plainScalar v
  | .bool _ => true
  | .array items => plainItems items
  | .object members => plainMembers members

def plainItems : List Doc → Bool
  | [] => true
  | d :: ds => plain d && plainItems ds

def plainMembers : List (String × Doc) → Bool
  | [] => true
  | (k, d) :: ms => plainString k && plain d && plainMembers ms

end

theorem plainItems_iff {ds : List Doc} : plainItems ds = true ↔ ∀ d ∈ ds, plain d = true := by
  induction ds with
  | nil => simp [plainItems]
  | cons d ds ih => rw [plainItems, Bool.and_eq_true, ih, List.forall_mem_cons]

theorem plainMembers_iff {ms : List (String × Doc)} :
    plainMembers ms = true ↔ ∀ m ∈ ms, plainString m.1 = true ∧ plain m.2 = true := by
  induction ms with
  | nil => simp [plainMembers]
  | cons m ms ih =>
      obtain ⟨k, d⟩ := m
      rw [plainMembers, Bool.and_eq_true, Bool.and_eq_true, ih, List.forall_mem_cons]

/-! ## Writing -/

def renderBool : Bool → List Char
  | true => ['t', 'r', 'u', 'e']
  | false => ['f', 'a', 'l', 's', 'e']

mutual

def render : Doc → List Char
  | .scalar v => renderScalar v
  | .bool b => renderBool b
  | .array [] => ['[', ']']
  | .array (d :: ds) => '[' :: (render d ++ renderItems ds)
  | .object [] => ['\x7b', '\x7d']
  | .object ((k, d) :: ms) => '\x7b' :: (renderString k ++ ':' :: (render d ++ renderMembers ms))

/-- The items behind the first, each after a comma, and the closing bracket. -/
def renderItems : List Doc → List Char
  | [] => [']']
  | d :: ds => ',' :: (render d ++ renderItems ds)

/-- The members behind the first, each after a comma, and the closing brace. -/
def renderMembers : List (String × Doc) → List Char
  | [] => ['\x7d']
  | (k, d) :: ms => ',' :: (renderString k ++ ':' :: (render d ++ renderMembers ms))

end

/-- Strings joined by commas are the inside of an array. -/
theorem intercalate_renderString (s : String) (ss : List String) :
    [','].intercalate ((s :: ss).map renderString) ++ [']']
      = renderString s ++ renderItems (ss.map .str) := by
  induction ss generalizing s with
  | nil => rw [List.map_singleton, List.intercalate_singleton, List.map_nil, renderItems]
  | cons t ss ih =>
      rw [List.map_cons, List.map_cons, List.intercalate_cons_cons, ← List.map_cons,
        List.append_assoc, ih, List.map_cons, renderItems, render, renderScalar,
        List.append_assoc, List.singleton_append]

theorem render_array_str (ss : List String) :
    render (.array (ss.map .str)) = '[' :: ([','].intercalate (ss.map renderString) ++ [']']) := by
  cases ss with
  | nil => rw [List.map_nil, render, List.map_nil, List.intercalate_nil, List.nil_append]
  | cons s ss => rw [intercalate_renderString, List.map_cons, render, render, renderScalar]

/-- What a JSON reader makes of plain objects. -/
def Reads (reader : String → Option Doc) : Prop :=
  ∀ ms, plainMembers ms = true →
    reader (String.ofList (render (.object ms))) = some (.object ms)

/-! ## Reading -/

mutual

/-- A document of at most `n` levels and items, and what follows. -/
def read : Nat → List Char → Option (Doc × List Char)
  | 0, _ => none
  | _ + 1, '[' :: ']' :: cs => some (.array [], cs)
  | n + 1, '[' :: cs =>
      match read n cs with
      | some (d, cs) => (readItems n cs).map fun r => (.array (d :: r.1), r.2)
      | none => none
  | _ + 1, '\x7b' :: '\x7d' :: cs => some (.object [], cs)
  | n + 1, '\x7b' :: cs =>
      match readMember n cs with
      | some (m, cs) => (readMembers n cs).map fun r => (.object (m :: r.1), r.2)
      | none => none
  | _ + 1, 't' :: 'r' :: 'u' :: 'e' :: cs => some (.bool true, cs)
  | _ + 1, 'f' :: 'a' :: 'l' :: 's' :: 'e' :: cs => some (.bool false, cs)
  | _ + 1, cs => (readScalar cs).map fun r => (.scalar r.1, r.2)

def readItems : Nat → List Char → Option (List Doc × List Char)
  | 0, _ => none
  | _ + 1, ']' :: cs => some ([], cs)
  | n + 1, ',' :: cs =>
      match read n cs with
      | some (d, cs) => (readItems n cs).map fun r => (d :: r.1, r.2)
      | none => none
  | _ + 1, _ => none

def readMembers : Nat → List Char → Option (List (String × Doc) × List Char)
  | 0, _ => none
  | _ + 1, '\x7d' :: cs => some ([], cs)
  | n + 1, ',' :: cs =>
      match readMember n cs with
      | some (m, cs) => (readMembers n cs).map fun r => (m :: r.1, r.2)
      | none => none
  | _ + 1, _ => none

/-- A member and what follows. -/
def readMember : Nat → List Char → Option ((String × Doc) × List Char)
  | 0, _ => none
  | n + 1, '"' :: cs =>
      match readString cs with
      | some (k, ':' :: cs) => (read n cs).map fun r => ((String.ofList k, r.1), r.2)
      | _ => none
  | _ + 1, _ => none

end

/-- Read the text of a document as it is rendered. -/
def parse (text : String) : Option Doc :=
  match read text.toList.length text.toList with
  | some (d, []) => some d
  | _ => none

/-! ## What is rendered is read back -/

/-- The first character of a plain scalar opens and closes nothing. -/
theorem head_renderScalar {v : Scalar} (h : plainScalar v = true) :
    ∃ c cs, renderScalar v = c :: cs ∧ c ∉ ['[', ']', '\x7b', 't', 'f'] := by
  cases v with
  | str s => exact ⟨_, _, rfl, by decide⟩
  | num n =>
      cases hd : Nat.toDigits 10 n with
      | nil => exact absurd hd Nat.toDigits_ne_nil
      | cons c cs =>
          have hdigit : c.isDigit = true :=
            Nat.isDigit_of_mem_toDigits (by omega) (by omega) (hd ▸ List.mem_cons_self)
          refine ⟨c, cs, hd, fun hc => ?_⟩
          simp only [List.mem_cons, List.not_mem_nil, or_false] at hc
          rcases hc with rfl | rfl | rfl | rfl | rfl <;> cases hdigit
  | other => cases h

theorem head_render {d : Doc} (h : plain d = true) : ∃ c cs, render d = c :: cs ∧ c ≠ ']' := by
  cases d with
  | scalar v =>
      obtain ⟨c, cs, hc, hne⟩ := head_renderScalar (by simpa [plain] using h)
      exact ⟨c, cs, by rw [render, hc], fun heq => hne (by simp [heq])⟩
  | bool b => cases b <;> exact ⟨_, _, by rw [render, renderBool], by decide⟩
  | array items => cases items <;> exact ⟨_, _, by rw [render], by decide⟩
  | object members =>
      cases members with
      | nil => exact ⟨_, _, by rw [render], by decide⟩
      | cons m ms =>
          obtain ⟨k, d⟩ := m
          exact ⟨_, _, by rw [render], by decide⟩

theorem head_renderItems (ds : List Doc) :
    ∃ c cs, renderItems ds = c :: cs ∧ c.isDigit = false := by
  cases ds <;> exact ⟨_, _, by rw [renderItems], by decide⟩

theorem head_renderMembers (ms : List (String × Doc)) :
    ∃ c cs, renderMembers ms = c :: cs ∧ c.isDigit = false := by
  cases ms with
  | nil => exact ⟨_, _, by rw [renderMembers], by decide⟩
  | cons m ms =>
      obtain ⟨k, d⟩ := m
      exact ⟨_, _, by rw [renderMembers], by decide⟩

theorem read_scalar {n : Nat} {c : Char} {cs : List Char} (h : c ∉ ['[', ']', '\x7b', 't', 'f']) :
    read (n + 1) (c :: cs) = (readScalar (c :: cs)).map fun r => (.scalar r.1, r.2) := by
  simp only [List.mem_cons, List.not_mem_nil, or_false, not_or] at h
  obtain ⟨h₁, _, h₂, h₃, h₄⟩ := h
  rw [read]
  all_goals simp [h₁, h₂, h₃, h₄]

theorem read_array {n : Nat} {c : Char} {cs : List Char} (h : c ≠ ']') :
    read (n + 1) ('[' :: c :: cs)
      = match read n (c :: cs) with
        | some (d, cs) => (readItems n cs).map fun r => (.array (d :: r.1), r.2)
        | none => none := by
  rw [read]
  simp [h]

theorem read_object {n : Nat} {cs : List Char} :
    read (n + 1) ('\x7b' :: '"' :: cs)
      = match readMember n ('"' :: cs) with
        | some (m, cs) => (readMembers n cs).map fun r => (.object (m :: r.1), r.2)
        | none => none := by
  rw [read]
  simp

theorem readScalar_render {v : Scalar} (h : plainScalar v = true) {c : Char} {cs : List Char}
    (hc : c.isDigit = false) : readScalar (renderScalar v ++ c :: cs) = some (v, c :: cs) := by
  have hempty : plainString "" = true := by decide
  refine FlatJson.readScalar_render (k := "") ?_ hc
  cases v with
  | str s => exact Bool.and_eq_true_iff.mpr ⟨hempty, h⟩
  | num n => exact Bool.and_eq_true_iff.mpr ⟨hempty, h⟩
  | other => cases h

/-- What is read back with `n` levels and items to go. -/
structure ReadsAt (n : Nat) : Prop where
  doc : ∀ d c cs, plain d = true → (render d).length ≤ n → c.isDigit = false →
    read n (render d ++ c :: cs) = some (d, c :: cs)
  items : ∀ ds cs, plainItems ds = true → (renderItems ds).length ≤ n →
    readItems n (renderItems ds ++ cs) = some (ds, cs)
  member : ∀ k d c cs, plainString k = true → plain d = true →
    (renderString k ++ ':' :: render d).length ≤ n → c.isDigit = false →
    readMember n (renderString k ++ ':' :: (render d ++ c :: cs)) = some ((k, d), c :: cs)
  members : ∀ ms cs, plainMembers ms = true → (renderMembers ms).length ≤ n →
    readMembers n (renderMembers ms ++ cs) = some (ms, cs)
  /-- An object needs nothing behind it to be told where it ends. -/
  object : ∀ ms cs, plainMembers ms = true → (render (.object ms)).length ≤ n →
    read n (render (.object ms) ++ cs) = some (.object ms, cs)

namespace ReadsAt

variable {n : Nat} (ih : ReadsAt n)

include ih in
/-- An object is read with a level more than its members. -/
theorem object_succ {ms : List (String × Doc)} (cs : List Char) (hms : plainMembers ms = true)
    (hlen : (render (.object ms)).length ≤ n + 1) :
    read (n + 1) (render (.object ms) ++ cs) = some (.object ms, cs) := by
  cases ms with
  | nil =>
      rw [render]
      simp [read]
  | cons m ms =>
      obtain ⟨k, d⟩ := m
      simp only [plainMembers, Bool.and_eq_true] at hms
      obtain ⟨⟨hk, hd⟩, hms⟩ := hms
      rw [render] at hlen ⊢
      obtain ⟨b, bs, hb, hdigit⟩ := head_renderMembers ms
      have hmember := ih.member k d b (bs ++ cs) hk hd (by simp at hlen ⊢; omega) hdigit
      have hmembers := ih.members ms cs hms (by simp at hlen ⊢; omega)
      rw [hb] at hmembers ⊢
      simp only [renderString, List.cons_append, List.append_assoc] at hmember hmembers ⊢
      rw [read_object, hmember]
      simp only [hmembers, Option.map_some]

include ih in
theorem array_succ {ds : List Doc} (cs : List Char) (hds : plainItems ds = true)
    (hlen : (render (.array ds)).length ≤ n + 1) :
    read (n + 1) (render (.array ds) ++ cs) = some (.array ds, cs) := by
  cases ds with
  | nil =>
      rw [render]
      simp [read]
  | cons d ds =>
      obtain ⟨hd, hds⟩ := Bool.and_eq_true_iff.mp (by simpa [plainItems] using hds)
      rw [render] at hlen ⊢
      obtain ⟨a, as, ha, hne⟩ := head_render hd
      obtain ⟨b, bs, hb, hdigit⟩ := head_renderItems ds
      have hdoc := ih.doc d b (bs ++ cs) hd (by simp at hlen ⊢; omega) hdigit
      have hitems := ih.items ds cs hds (by simp at hlen ⊢; omega)
      rw [hb] at hitems ⊢
      rw [ha] at hdoc ⊢
      simp only [List.cons_append, List.append_assoc] at hdoc hitems ⊢
      rw [read_array hne, hdoc]
      simp only [hitems, Option.map_some]

include ih in
theorem doc_succ {d : Doc} {c : Char} (cs : List Char) (hd : plain d = true)
    (hlen : (render d).length ≤ n + 1) (hc : c.isDigit = false) :
    read (n + 1) (render d ++ c :: cs) = some (d, c :: cs) := by
  cases d with
  | scalar v =>
      rw [plain] at hd
      obtain ⟨b, bs, hb, hne⟩ := head_renderScalar hd
      have hread : readScalar (renderScalar v ++ c :: cs) = some (v, c :: cs) :=
        readScalar_render hd hc
      rw [render]
      rw [hb, List.cons_append] at hread ⊢
      rw [read_scalar hne, hread, Option.map_some]
  | bool b => cases b <;> rfl
  | array items => exact ih.array_succ (c :: cs) (by simpa [plain] using hd) hlen
  | object members => exact ih.object_succ (c :: cs) (by simpa [plain] using hd) hlen

include ih in
theorem items_succ {ds : List Doc} (cs : List Char) (hds : plainItems ds = true)
    (hlen : (renderItems ds).length ≤ n + 1) :
    readItems (n + 1) (renderItems ds ++ cs) = some (ds, cs) := by
  cases ds with
  | nil =>
      rw [renderItems]
      simp [readItems]
  | cons d ds =>
      obtain ⟨hd, hds⟩ := Bool.and_eq_true_iff.mp (by simpa [plainItems] using hds)
      rw [renderItems] at hlen ⊢
      obtain ⟨b, bs, hb, hdigit⟩ := head_renderItems ds
      have hdoc := ih.doc d b (bs ++ cs) hd (by simp at hlen ⊢; omega) hdigit
      have hitems := ih.items ds cs hds (by simp at hlen ⊢; omega)
      rw [hb] at hitems ⊢
      simp only [List.cons_append, List.append_assoc] at hdoc hitems ⊢
      rw [readItems, hdoc]
      simp only [hitems, Option.map_some]

include ih in
theorem members_succ {ms : List (String × Doc)} (cs : List Char) (hms : plainMembers ms = true)
    (hlen : (renderMembers ms).length ≤ n + 1) :
    readMembers (n + 1) (renderMembers ms ++ cs) = some (ms, cs) := by
  cases ms with
  | nil =>
      rw [renderMembers]
      simp [readMembers]
  | cons m ms =>
      obtain ⟨k, d⟩ := m
      simp only [plainMembers, Bool.and_eq_true] at hms
      obtain ⟨⟨hk, hd⟩, hms⟩ := hms
      rw [renderMembers] at hlen ⊢
      obtain ⟨b, bs, hb, hdigit⟩ := head_renderMembers ms
      have hmember := ih.member k d b (bs ++ cs) hk hd (by simp at hlen ⊢; omega) hdigit
      have hmembers := ih.members ms cs hms (by simp at hlen ⊢; omega)
      rw [hb] at hmembers ⊢
      simp only [List.cons_append, List.append_assoc] at hmember hmembers ⊢
      rw [readMembers, hmember]
      simp only [hmembers, Option.map_some]

include ih in
theorem member_succ {k : String} {d : Doc} {c : Char} (cs : List Char) (hk : plainString k = true)
    (hd : plain d = true) (hlen : (renderString k ++ ':' :: render d).length ≤ n + 1)
    (hc : c.isDigit = false) :
    readMember (n + 1) (renderString k ++ ':' :: (render d ++ c :: cs)) = some ((k, d), c :: cs) := by
  have hdoc := ih.doc d c cs hd (by simp [renderString] at hlen ⊢; omega) hc
  simp only [renderString, List.cons_append, List.append_assoc, List.nil_append]
  rw [readMember, FlatJson.readString_render (FlatJson.quote_not_mem hk)]
  simp only [hdoc, Option.map_some, String.ofList_toList]

end ReadsAt

theorem readsAt (n : Nat) : ReadsAt n := by
  -- every step takes a character and hands one level less to what is inside
  induction n with
  | zero =>
      constructor
      · intro d c cs hd hlen
        obtain ⟨b, bs, hb, _⟩ := head_render hd
        simp [hb] at hlen
      · intro ds cs _ hlen
        obtain ⟨b, bs, hb, _⟩ := head_renderItems ds
        simp [hb] at hlen
      · intro k d c cs _ _ hlen
        simp [renderString] at hlen
      · intro ms cs _ hlen
        obtain ⟨b, bs, hb, _⟩ := head_renderMembers ms
        simp [hb] at hlen
      · intro ms cs hms hlen
        obtain ⟨b, bs, hb, _⟩ := head_render (d := .object ms) (by simpa [plain] using hms)
        simp [hb] at hlen
  | succ n ih =>
      constructor
      · exact fun d c cs hd hlen hc => ih.doc_succ cs hd hlen hc
      · exact fun ds cs hds hlen => ih.items_succ cs hds hlen
      · exact fun k d c cs hk hd hlen hc => ih.member_succ cs hk hd hlen hc
      · exact fun ms cs hms hlen => ih.members_succ cs hms hlen
      · exact fun ms cs hms hlen => ih.object_succ cs hms hlen

/-- **What is rendered is read back.** -/
theorem parse_render : Reads parse := by
  intro ms hms
  have hread := (readsAt _).object ms [] hms (Nat.le_refl _)
  rw [List.append_nil] at hread
  rw [parse, String.toList_ofList, hread]

end Json
