import EvmState.Proof.Requests

/-!
# Streaming is splitting

What a response yields depends on its body and not on the chunks it came in
(`bodyItems_chunks`). `splitItems` says what that should be: split the body at its
newlines, trim the pieces, drop the blank ones, and parse the rest up to the first
failure. The two agree line by line, but for lines that do not parse and whose
excerpt, the first 200 bytes, ends inside a character.
-/

namespace EvmState

open Framing

/-- The blocks that were read, and the error that ended it. -/
def pageItems : PageState × Except FetchError Unit → List (Except FetchError Block)
  | (st, .ok ()) => st.yielded.map .ok
  | (st, .error e) => st.yielded.map .ok ++ [.error e]

/-- What one response yields. -/
def bodyItems (fromStr : String → Option Block) (body : List (Except FetchError Bytes)) :
    List (Except FetchError Block) := pageItems (readBody fromStr [] body {})

/-! ## Splitting -/

/-- The blocks of the lines in order, up to the first failure. -/
def itemsUntil : List (Except FetchError (Option Block)) → List (Except FetchError Block)
  | [] => []
  | .ok none :: lines => itemsUntil lines
  | .ok (some block) :: lines => .ok block :: itemsUntil lines
  | .error e :: _ => [.error e]

/--
A piece of the body, trimmed: nothing if it is blank, and a block or a failure
otherwise. The content of the error is what fits in 200 bytes.
-/
def parsePiece (fromStr : String → Option Block) (piece : Bytes) :
    Except FetchError (Option Block) :=
  match (fromUtf8 piece).map Text.trim with
  | none => .error .invalidUtf8
  | some [] => .ok none
  | some (c :: line) =>
      if c = '[' then .error .jsonArray
      else
        match fromStr (String.ofList (c :: line)) with
        | some block => .ok (some block)
        | none => .error (.parseBlock (String.ofList (Text.wholeChars 200 (c :: line))))

/-- What splitting the whole body gives. -/
def splitItems (fromStr : String → Option Block) (body : Bytes) : List (Except FetchError Block) :=
  itemsUntil ((body.splitOn 10).map (parsePiece fromStr))

/-- A line that is no block and no array, with a character across its 200th byte. -/
def CutsChar (fromStr : String → Option Block) (piece : Bytes) : Prop :=
  ∃ c line, (fromUtf8 piece).map Text.trim = some (c :: line) ∧ c ≠ '['
    ∧ fromStr (String.ofList (c :: line)) = none ∧ Text.takeBytes 200 (c :: line) = none

/-- There is such a line, and nothing before it fails. -/
def ReachesCut (fromStr : String → Option Block) (body : Bytes) : Prop :=
  ∃ pre piece post, body.splitOn 10 = pre ++ piece :: post
    ∧ (∀ p ∈ pre, ∃ r, parsePiece fromStr p = .ok r) ∧ CutsChar fromStr piece

section Streaming

variable {fromStr : String → Option Block}

/-- The lines that were read, as items. -/
theorem pageItems_readLines (lines : List Bytes) (st : PageState) :
    pageItems (readLines fromStr lines st)
      = st.yielded.map .ok ++ itemsUntil (lines.map (readLine fromStr)) := by
  unfold readLines
  induction lines.map (readLine fromStr) generalizing st with
  | nil => simp [Lists.runUntil, pageItems, itemsUntil]
  | cons line lines ih =>
      cases line with
      -- the first line that fails ends the page; what came before is yielded
      | error e => simp [Lists.runUntil, pageItems, itemsUntil]
      | ok r =>
          rw [Lists.runUntil, ih]
          cases r with
          | none => simp [PageState.push, itemsUntil]
          | some block => simp [PageState.push, itemsUntil]

/-- The pieces of the body are its lines, but for an empty last one. -/
theorem readLines_splitOn (body : Bytes) (st : PageState) :
    readLines fromStr (body.splitOn 10) st = readLines fromStr (bodyLines body) st := by
  have hsplit : ([] ++ body).splitOn 10 = (split 10 [] body).1 ++ [(split 10 [] body).2] :=
    splitOn_eq (by simp) body
  rw [List.nil_append] at hsplit
  rw [hsplit, bodyLines]
  cases hrest : (split 10 [] body).2 with
  | nil => rw [readLines_concat_blank, List.isEmpty_nil, if_pos rfl, List.append_nil]
  | cons b bs => simp

/-- **The cut into chunks is not seen in what a response yields.** -/
theorem bodyItems_chunks (fromStr : String → Option Block) (chunks : List Bytes) :
    bodyItems fromStr (chunks.map .ok)
      = itemsUntil ((chunks.flatten.splitOn 10).map (readLine fromStr)) := by
  rw [bodyItems, readBody_chunks (by simp), List.nil_append, ← readLines_splitOn,
    pageItems_readLines]
  rfl

/-! ## Line by line -/

/-- A line is read as its piece is parsed, or the excerpt of its error cannot be cut. -/
theorem readLine_cases (fromStr : String → Option Block) (piece : Bytes) :
    (¬ CutsChar fromStr piece ∧ readLine fromStr piece = parsePiece fromStr piece)
      ∨ CutsChar fromStr piece ∧ readLine fromStr piece = .error .sliceInChar
        ∧ ∃ content, parsePiece fromStr piece = .error (.parseBlock content) := by
  unfold readLine parsePiece CutsChar
  cases fromUtf8 piece with
  | none => simp
  | some cs =>
      simp only [Option.map_some]
      cases Text.trim cs with
      | nil => simp
      | cons c line =>
          by_cases hc : c = '['
          · simp [parseBlockLine, hc]
          · cases hparse : fromStr (String.ofList (c :: line)) with
            | some block => simp [-String.ofList_cons, parseBlockLine, hc, hparse]
            | none =>
                -- the error quotes the first 200 bytes, and the slice must end on a character boundary
                cases htake : Text.takeBytes 200 (c :: line) with
                | none => simp [-String.ofList_cons, parseBlockLine, hc, hparse, htake]
                | some content =>
                    have hwhole := Text.wholeChars_of_takeBytes htake
                    simp [-String.ofList_cons, parseBlockLine, hc, hparse, htake, hwhole]

theorem not_reachesCut_cons {p : Bytes} {pieces : List Bytes} {r : Option Block}
    (hp : parsePiece fromStr p = .ok r) :
    (∀ pre piece post, p :: pieces = pre ++ piece :: post →
        (∀ q ∈ pre, ∃ r, parsePiece fromStr q = .ok r) → ¬ CutsChar fromStr piece)
      ↔ ∀ pre piece post, pieces = pre ++ piece :: post →
        (∀ q ∈ pre, ∃ r, parsePiece fromStr q = .ok r) → ¬ CutsChar fromStr piece := by
  constructor
  · intro h pre piece post heq hpre
    exact h (p :: pre) piece post (by rw [heq, List.cons_append])
      (List.forall_mem_cons.mpr ⟨⟨r, hp⟩, hpre⟩)
  · intro h pre piece post heq hpre hcut
    cases pre with
    | nil =>
        -- a piece that parses has no error whose excerpt could be cut
        obtain ⟨rfl, _⟩ := List.cons.inj heq
        rcases readLine_cases fromStr p with h' | ⟨_, _, content, h'⟩
        · exact h'.1 hcut
        · rw [hp] at h'
          cases h'
    | cons q pre =>
        obtain ⟨_, heq⟩ := List.cons.inj heq
        exact h pre piece post heq (fun q' hq' => hpre q' (List.mem_cons_of_mem q hq')) hcut

/-- **Reading is parsing, line by line**, if and only if no excerpt that is reached is cut. -/
theorem itemsUntil_eq_iff (fromStr : String → Option Block) (pieces : List Bytes) :
    itemsUntil (pieces.map (readLine fromStr)) = itemsUntil (pieces.map (parsePiece fromStr))
      ↔ ∀ pre piece post, pieces = pre ++ piece :: post →
          (∀ q ∈ pre, ∃ r, parsePiece fromStr q = .ok r) → ¬ CutsChar fromStr piece := by
  induction pieces with
  | nil => simp [itemsUntil]
  | cons p pieces ih =>
      rcases readLine_cases fromStr p with ⟨hcut, hread⟩ | ⟨hcut, hread, content, hparse⟩
      · rw [List.map_cons, List.map_cons, hread]
        cases hparse : parsePiece fromStr p with
        | error e =>
            -- both stop here, and no piece behind `p` is reached
            refine iff_of_true rfl ?_
            intro pre piece post heq hpre
            cases pre with
            | nil => exact (List.cons.inj heq).1 ▸ hcut
            | cons q pre =>
                obtain ⟨rfl, _⟩ := List.cons.inj heq
                obtain ⟨r, hr⟩ := hpre p List.mem_cons_self
                rw [hparse] at hr
                cases hr
        | ok r =>
            rw [not_reachesCut_cons hparse, ← ih]
            cases r <;> simp [itemsUntil]
      · refine iff_of_false ?_ fun h => h [] p pieces rfl (by simp) hcut
        rw [List.map_cons, List.map_cons, hread, hparse]
        simp [itemsUntil]

/-- A request that is answered yields what its body does. -/
theorem requestItems_of_start {portal : Portal} {toBlock : Option U64} {k : Nat} {current : U64}
    {body : List (Except FetchError Bytes)}
    (hbody : startRequest (portal k current toBlock) = .ok body) :
    requestItems fromStr portal toBlock k current = bodyItems fromStr body := by
  rw [requestItems, hbody, bodyItems]
  dsimp only
  cases readBody fromStr [] body {} with
  | mk st result => cases result <;> rfl

/-- What a stream yields for a request comes first of what it yields from there on. -/
theorem bodyItems_of_streamFrom {portal : Portal} {toBlock : Option U64} {fuel k : Nat}
    {current : U64} {body : List (Except FetchError Bytes)} {items : List (Except FetchError Block)}
    (hto : toBlock.any (fun n => decide (n < current)) = false)
    (hbody : startRequest (portal k current toBlock) = .ok body)
    (h : streamFrom fromStr portal toBlock (fuel + 1) k current = some items) :
    bodyItems fromStr body <+: items := by
  rw [streamFrom_succ hto, Option.map_eq_some_iff] at h
  obtain ⟨rest, _, rfl⟩ := h
  rw [requestItems_of_start hbody]
  exact List.prefix_append _ _

/--
**Streaming equals splitting**, unless a line that is no block is reached whose 200th
byte is inside a character: then the excerpt for the error is cut there, which is a
panic. The chunks are not observable in any case, and the items of a response are
what a stream yields for it.
-/
theorem bodyItems_eq_splitItems_iff (body : Bytes) :
    ((∀ chunks : List Bytes, chunks.flatten = body →
          bodyItems fromStr (chunks.map .ok) = splitItems fromStr body)
        ↔ ¬ ReachesCut fromStr body)
      ∧ (∀ chunks chunks' : List Bytes, chunks.flatten = body → chunks'.flatten = body →
          bodyItems fromStr (chunks.map .ok) = bodyItems fromStr (chunks'.map .ok))
      ∧ ∀ (portal : Portal) (toBlock : Option U64) (fuel k : Nat) (current : U64)
          (chunks : List Bytes) (items : List (Except FetchError Block)), chunks.flatten = body →
          toBlock.any (fun n => decide (n < current)) = false →
          startRequest (portal k current toBlock) = .ok (chunks.map .ok) →
          streamFrom fromStr portal toBlock (fuel + 1) k current = some items →
          bodyItems fromStr (chunks.map .ok) <+: items := by
  have hiff := itemsUntil_eq_iff fromStr (body.splitOn 10)
  refine ⟨⟨fun h hreach => ?_, fun h chunks hchunks => ?_⟩, fun chunks chunks' h h' => ?_, ?_⟩
  · obtain ⟨pre, piece, post, heq, hpre, hcut⟩ := hreach
    -- one chunk is enough to show the difference
    have hone := h [body] (by simp)
    rw [bodyItems_chunks, List.flatten_singleton, splitItems] at hone
    exact hiff.mp hone pre piece post heq hpre hcut
  · rw [bodyItems_chunks, hchunks, splitItems]
    exact hiff.mpr fun pre piece post heq hpre hcut => h ⟨pre, piece, post, heq, hpre, hcut⟩
  · rw [bodyItems_chunks, bodyItems_chunks, h, h']
  · intro portal toBlock fuel k current chunks items _ hto hbody hitems
    exact bodyItems_of_streamFrom hto hbody hitems

end Streaming

/-- A line of 201 bytes whose last character takes two of them. -/
def accentedLine : List Char := List.replicate 199 'a' ++ ['é']

theorem parse_accentedLine :
    (fromUtf8 (utf8 accentedLine)).map Text.trim = some accentedLine := by
  rw [fromUtf8_utf8, Option.map_some, Text.trim_of_forall]
  intro c hc
  rcases List.mem_append.mp hc with hc | hc
  · rw [List.eq_of_mem_replicate hc]
    decide
  · rw [List.mem_singleton.mp hc]
    decide

set_option maxRecDepth 2000 in
theorem takeBytes_accentedLine : Text.takeBytes 200 accentedLine = none := by
  decide

theorem cutsChar_accentedLine : CutsChar (fun _ => none) (utf8 accentedLine) :=
  ⟨'a', List.replicate 198 'a' ++ ['é'], parse_accentedLine, by decide, rfl, takeBytes_accentedLine⟩

theorem splitOn_accentedLine : (utf8 accentedLine).splitOn 10 = [utf8 accentedLine] := by
  refine List.splitOn_eq_singleton (newline_notMem_utf8 ?_)
  rw [accentedLine, List.mem_append, List.mem_replicate, List.mem_singleton]
  decide

/-- **A line that is no block, and no error for it**: the excerpt ends inside its last character. -/
theorem bodyItems_accentedLine :
    bodyItems (fun _ => none) [.ok (utf8 accentedLine)]
      ≠ splitItems (fun _ => none) (utf8 accentedLine) := by
  have hbody : bodyItems (fun _ => none) [.ok (utf8 accentedLine)]
      = itemsUntil ((utf8 accentedLine).splitOn 10 |>.map (readLine fun _ => none)) := by
    have h := bodyItems_chunks (fun _ => none) [utf8 accentedLine]
    rwa [List.flatten_singleton] at h
  rw [hbody, splitItems, splitOn_accentedLine]
  rcases readLine_cases (fun _ => none) (utf8 accentedLine) with
    h | ⟨_, hread, content, hparse⟩
  · exact absurd cutsChar_accentedLine h.1
  · simp [hread, hparse, itemsUntil]

end EvmState
