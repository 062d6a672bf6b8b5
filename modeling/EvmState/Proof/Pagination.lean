import EvmState.Fetcher.Stream

/-!
# Pagination delivers the range

A page is read the same however it is cut into chunks, and yields the blocks its
lines carry (`readBody_serves`). The cursor then stands behind the last block that
came, so what is left of the range is what the next request asks for
(`inRange_next`), and the number of blocks left bounds the number of requests.
-/

namespace EvmState

open Framing

/-! ## One page -/

/-- The lines carry these blocks, an object a line, with blank lines anywhere. -/
inductive Carries (fromStr : String → Option Block) : List (List Char) → List Block → Prop
  | nil : Carries fromStr [] []
  | blank {line : List Char} {lines : List (List Char)} {blocks : List Block} :
      '\n' ∉ line → Text.trim line = [] → Carries fromStr lines blocks →
      Carries fromStr (line :: lines) blocks
  | block {line : List Char} {block : Block} {lines : List (List Char)} {blocks : List Block} :
      '\n' ∉ line → (Text.trim line).head? = some '\x7b' →
      fromStr (String.ofList (Text.trim line)) = some block → Carries fromStr lines blocks →
      Carries fromStr (line :: lines) (block :: blocks)

/-- A body that carries these blocks, in any chunks, with or without the final newline. -/
def Serves (fromStr : String → Option Block) (body : List (Except FetchError Bytes))
    (blocks : List Block) : Prop :=
  ∃ (chunks : List Bytes) (lines : List (List Char)) (text : List Char),
    body = chunks.map Except.ok ∧ chunks.flatten = utf8 text ∧ Carries fromStr lines blocks
      ∧ (text = Text.unlines lines ∨ text ++ ['\n'] = Text.unlines lines)

section Page

variable {fromStr : String → Option Block}

theorem readLines_append (xs ys : List Bytes) (st : PageState) :
    readLines fromStr (xs ++ ys) st
      = match readLines fromStr xs st with
        | (st', .ok ()) => readLines fromStr ys st'
        | (st', .error e) => (st', .error e) := by
  rw [readLines, List.map_append, Lists.runUntil_append]
  simp only [readLines]
  cases Lists.runUntil PageState.push (xs.map (readLine fromStr)) st with
  | mk st' result => cases result <;> rfl

/-- A blank line is passed over. -/
theorem readLine_blank {line : List Char} (h : Text.trim line = []) :
    readLine fromStr (utf8 line) = .ok none := by
  simp only [readLine, fromUtf8_utf8, h, List.isEmpty_nil, if_true]

theorem readLines_concat_blank (xs : List Bytes) (st : PageState) :
    readLines fromStr (xs ++ [[]]) st = readLines fromStr xs st := by
  have hnil : Text.trim [] = [] := rfl
  have hblank : readLine fromStr [] = .ok none := readLine_blank hnil
  rw [readLines_append]
  cases readLines fromStr xs st with
  | mk st' result =>
      cases result with
      | error e => rfl
      | ok u =>
          simp only [readLines, List.map_cons, List.map_nil, hblank, Lists.runUntil]
          rfl

theorem readLine_block {line : List Char} {block : Block}
    (hhead : (Text.trim line).head? = some '\x7b')
    (hparse : fromStr (String.ofList (Text.trim line)) = some block) :
    readLine fromStr (utf8 line) = .ok (some block) := by
  have hne : (Text.trim line).isEmpty = false := by
    cases htrim : Text.trim line with
    | nil => simp [htrim] at hhead
    | cons c cs => rfl
  have harray : ¬ (Text.trim line).head? = some '[' := by
    rw [hhead]
    decide
  simp only [readLine, fromUtf8_utf8, hne, Bool.false_eq_true, if_false, parseBlockLine,
    String.toList_ofList, harray, hparse]

/-- The lines of a page yield the blocks they carry. -/
theorem readLines_carries {lines : List (List Char)} {blocks : List Block}
    (h : Carries fromStr lines blocks) (st : PageState) :
    readLines fromStr (lines.map utf8) st
      = ({ lastBlock := (blocks.getLast?.map (fun b => b.header.number)).or st.lastBlock
           gotAny := st.gotAny || !blocks.isEmpty
           yielded := st.yielded ++ blocks }, .ok ()) := by
  induction h generalizing st with
  | nil => simp [readLines, Lists.runUntil]
  | blank _ hblank _ ih =>
      have := ih st
      simp only [readLines, List.map_cons, readLine_blank hblank, Lists.runUntil] at this ⊢
      exact this
  | @block line block lines blocks _ hhead hparse _ ih =>
      have := ih (st.push (some block))
      simp only [readLines, List.map_cons, readLine_block hhead hparse, Lists.runUntil] at this ⊢
      rw [this]
      cases blocks <;> simp [PageState.push, List.getLast?_cons]

/-- What the source makes of a whole body: its lines, and what is behind the last newline. -/
def bodyLines (bytes : Bytes) : List Bytes :=
  (split 10 [] bytes).1
    ++ if (split 10 [] bytes).2.isEmpty then [] else [(split 10 [] bytes).2]

/-- **The cut into chunks decides nothing.** -/
theorem readBody_chunks {buffer : Bytes} (h : 10 ∉ buffer) (chunks : List Bytes) (st : PageState) :
    readBody fromStr buffer (chunks.map Except.ok) st
      = readLines fromStr (bodyLines (buffer ++ chunks.flatten)) st := by
  induction chunks generalizing buffer st with
  | nil =>
      have hsplit : split 10 [] buffer = ([], buffer) := by
        have := split_rest h []
        rwa [List.append_nil] at this
      rw [List.map_nil, readBody, List.flatten_nil, List.append_nil, bodyLines, hsplit]
      cases buffer <;> rfl
  | cons chunk chunks ih =>
      have hcut : bodyLines (buffer ++ (chunk :: chunks).flatten)
          = (split 10 [] (buffer ++ chunk)).1
            ++ bodyLines ((split 10 [] (buffer ++ chunk)).2 ++ chunks.flatten) := by
        have hrest : 10 ∉ (split 10 [] (buffer ++ chunk)).2 := notMem_split (by simp) _
        rw [List.flatten_cons, ← List.append_assoc, bodyLines, bodyLines, split_append,
          split_rest hrest, List.append_assoc]
      rw [List.map_cons, readBody, hcut, readLines_append]
      cases readLines fromStr (split 10 [] (buffer ++ chunk)).1 st with
      | mk st' result =>
          cases result with
          | error e => rfl
          | ok u => exact ih (notMem_split (by simp) _) st'

theorem utf8_unlines (lines : List (List Char)) :
    utf8 (Text.unlines lines) = join 10 (lines.map utf8) := by
  induction lines with
  | nil => rfl
  | cons line lines ih =>
      rw [Text.unlines, List.flatMap_cons, utf8_append, utf8_append, List.map_cons, join,
        List.flatMap_cons]
      exact congrArg _ ih

theorem Carries.newline_notMem {lines : List (List Char)} {blocks : List Block}
    (h : Carries fromStr lines blocks) : ∀ line ∈ lines, '\n' ∉ line := by
  induction h with
  | nil => simp
  | blank hline _ _ ih => exact List.forall_mem_cons.mpr ⟨hline, ih⟩
  | block hline _ _ _ ih => exact List.forall_mem_cons.mpr ⟨hline, ih⟩

/-- **A page yields the blocks it serves.** -/
theorem readBody_serves {body : List (Except FetchError Bytes)} {blocks : List Block}
    (h : Serves fromStr body blocks) :
    readBody fromStr [] body {}
      = ({ lastBlock := blocks.getLast?.map (fun b => b.header.number)
           gotAny := !blocks.isEmpty
           yielded := blocks }, .ok ()) := by
  obtain ⟨chunks, lines, text, rfl, hchunks, hcarries, htext⟩ := h
  have hlines := hcarries.newline_notMem
  have hread := readLines_carries hcarries {}
  simp only [Option.or_none, Bool.false_or, List.nil_append] at hread
  have hsplit : ∀ {ls : List (List Char)} {rest : List Char}, (∀ l ∈ ls, '\n' ∉ l) → '\n' ∉ rest →
      split 10 [] (utf8 (Text.unlines ls ++ rest)) = (ls.map utf8, utf8 rest) := by
    intro ls rest hls hrest
    rw [utf8_append, utf8_unlines]
    refine split_join (fun f hf => ?_) (newline_notMem_utf8 hrest)
    obtain ⟨l, hl, rfl⟩ := List.mem_map.mp hf
    exact newline_notMem_utf8 (hls l hl)
  rw [readBody_chunks (by simp), List.nil_append, hchunks, ← hread]
  rcases htext with rfl | htext
  · -- every line has its newline, and nothing is behind the last
    have hcut := hsplit hlines List.not_mem_nil
    rw [List.append_nil] at hcut
    rw [bodyLines, hcut]
    simp [utf8]
  · -- the last line goes without
    rcases List.eq_nil_or_concat lines with rfl | ⟨front, rest, rfl⟩
    · simp [Text.unlines] at htext
    · have htext' : text = Text.unlines front ++ rest := by
        have hun : Text.unlines (front.concat rest) = (Text.unlines front ++ rest) ++ ['\n'] := by
          simp [Text.unlines, List.concat_eq_append]
        rw [hun] at htext
        exact List.append_cancel_right htext
      have hfront : ∀ l ∈ front, '\n' ∉ l := fun l hl => hlines l (by simp [hl])
      have hcut := hsplit hfront (hlines rest (by simp))
      rw [htext', bodyLines, hcut, List.concat_eq_append, List.map_append]
      cases rest with
      | nil =>
          have hnil : utf8 [] = [] := rfl
          rw [hnil, List.map_singleton, hnil, readLines_concat_blank, List.isEmpty_nil, if_pos rfl,
            List.append_nil]
      | cons c cs =>
          have hne : (utf8 (c :: cs)).isEmpty = false := by
            simp [utf8, List.isEmpty_eq_false_iff]
          rw [if_neg (by simp [hne])]
          rfl

end Page

/-! ## The range, page by page -/

/-- The blocks of the range, in the order of the dataset. -/
def inRange (dataset : List Block) (fromBlock : U64) (toBlock : Option U64) : List Block :=
  dataset.filter fun b =>
    decide (fromBlock ≤ b.header.number) && toBlock.all (fun n => decide (b.header.number ≤ n))

/--
The portal answers each request with a first part of what is in its range, and with
an empty one only if nothing is.
-/
def Answers (fromStr : String → Option Block) (dataset : List Block) (portal : Portal) : Prop :=
  ∀ (k : Nat) (fromBlock : U64) (toBlock : Option U64), ∃ body served rest,
    startRequest (portal k fromBlock toBlock) = .ok body ∧ Serves fromStr body served
      ∧ inRange dataset fromBlock toBlock = served ++ rest ∧ (served = [] → rest = [])

section Range

variable {dataset : List Block} {current : U64} {toBlock : Option U64}

theorem mem_inRange {b : Block} : b ∈ inRange dataset current toBlock
    ↔ b ∈ dataset ∧ current ≤ b.header.number ∧ ∀ n, toBlock = some n → b.header.number ≤ n := by
  cases toBlock <;> simp [inRange]

/-- Nothing is left behind the end. -/
theorem inRange_passed (h : toBlock.any (fun n => decide (n < current)) = true) :
    inRange dataset current toBlock = [] := by
  refine List.eq_nil_iff_forall_not_mem.mpr fun b hb => ?_
  obtain ⟨_, hcur, hto⟩ := mem_inRange.mp hb
  cases toBlock with
  | none => simp at h
  | some n =>
      have hle := hto n rfl
      simp only [Option.any_some, decide_eq_true_eq] at h
      bv_omega

variable (hasc : dataset.Pairwise (fun x y => x.header.number < y.header.number))

include hasc in
/-- What came is in order, and before what is left. -/
theorem inRange_order {served rest : List Block} {b : Block}
    (h : inRange dataset current toBlock = served ++ rest) (hb : served.getLast? = some b) :
    (∀ x ∈ served, x.header.number ≤ b.header.number)
      ∧ ∀ x ∈ rest, b.header.number < x.header.number := by
  have hsorted : (served ++ rest).Pairwise (fun x y => x.header.number < y.header.number) :=
    h ▸ hasc.filter _
  obtain ⟨hserved, _, hacross⟩ := List.pairwise_append.mp hsorted
  obtain ⟨front, rfl⟩ := List.getLast?_eq_some_iff.mp hb
  obtain ⟨_, _, hfront⟩ := List.pairwise_append.mp hserved
  refine ⟨fun x hx => ?_, fun x hx => hacross b (by simp) x hx⟩
  rcases List.mem_append.mp hx with hx | hx
  · exact BitVec.le_of_lt (hfront x hx b (by simp))
  · obtain rfl := List.mem_singleton.mp hx
    exact BitVec.le_refl _

include hasc in
/-- **The next request asks for what is left.** -/
theorem inRange_next {served rest : List Block} {b : Block}
    (h : inRange dataset current toBlock = served ++ rest) (hb : served.getLast? = some b)
    (hmax : b.header.number < BitVec.allOnes 64) :
    inRange dataset (b.header.number + 1) toBlock = rest := by
  obtain ⟨hserved, hrest⟩ := inRange_order hasc h hb
  have hcur : current ≤ b.header.number :=
    (mem_inRange.mp (h ▸ List.mem_append_left _ (List.mem_of_getLast? hb))).2.1
  -- below the maximum, being past `b` is starting at the number after it
  have hsucc : ∀ n : U64, b.header.number + 1 ≤ n ↔ b.header.number < n := by
    intro n
    bv_omega
  have hcut : inRange dataset (b.header.number + 1) toBlock
      = (inRange dataset current toBlock).filter
          (fun x => decide (b.header.number < x.header.number)) := by
    rw [inRange, inRange, List.filter_filter]
    refine List.filter_congr fun x _ => ?_
    by_cases hx : b.header.number < x.header.number
    · have : current ≤ x.header.number := by bv_omega
      rw [decide_eq_true ((hsucc _).mpr hx), decide_eq_true this, decide_eq_true hx]
      rfl
    · rw [decide_eq_false (fun hle => hx ((hsucc _).mp hle)), decide_eq_false hx]
      rfl
  rw [hcut, h, List.filter_append, List.filter_eq_nil_iff.mpr, List.filter_eq_self.mpr,
    List.nil_append]
  · exact fun x hx => by simpa using hrest x hx
  · intro x hx
    have := hserved x hx
    simp only [decide_eq_true_eq]
    bv_omega

include hasc in
/-- When the end of the range has come, nothing is left. -/
theorem inRange_ended {served rest : List Block} {b : Block}
    (h : inRange dataset current toBlock = served ++ rest) (hb : served.getLast? = some b)
    (hend : toBlock.any (fun n => decide (n ≤ b.header.number)) = true) : rest = [] := by
  obtain ⟨_, hbehind⟩ := inRange_order hasc h hb
  refine List.eq_nil_iff_forall_not_mem.mpr fun x hx => ?_
  have hlt := hbehind x hx
  have hto := (mem_inRange.mp (h ▸ List.mem_append_right served hx)).2.2
  cases toBlock with
  | none => simp at hend
  | some n =>
      have hle := hto n rfl
      simp only [Option.any_some, decide_eq_true_eq] at hend
      bv_omega

end Range

section Delivers

variable {fromStr : String → Option Block} {dataset : List Block} {portal : Portal}

theorem streamFrom_delivers (hasc : dataset.Pairwise (fun x y => x.header.number < y.header.number))
    (hmax : ∀ b ∈ dataset, b.header.number < BitVec.allOnes 64)
    (hportal : Answers fromStr dataset portal) (toBlock : Option U64) {fuel k : Nat} {current : U64}
    (hfuel : (inRange dataset current toBlock).length < fuel) :
    streamFrom fromStr portal toBlock fuel k current
      = some ((inRange dataset current toBlock).map Except.ok) := by
  -- each page that is not the last shortens what is left of the range
  induction fuel generalizing k current with
  | zero => exact absurd hfuel (Nat.not_lt_zero _)
  | succ fuel ih =>
      rw [streamFrom]
      split
      · rename_i hpassed
        rw [inRange_passed hpassed, List.map_nil]
      · obtain ⟨body, served, rest, hreq, hserves, hrange, hempty⟩ := hportal k current toBlock
        simp only [hreq, readBody_serves hserves]
        cases hlast : served.getLast? with
        | none =>
            have hnil := List.getLast?_eq_none_iff.mp hlast
            rw [hrange, hempty hnil, hnil]
            simp
        | some b =>
            have hmem : b ∈ served := List.mem_of_getLast? hlast
            have hb := mem_inRange.mp (hrange ▸ List.mem_append_left rest hmem)
            have hne : served.isEmpty = false := by
              cases served with
              | nil => cases hmem
              | cons x xs => rfl
            simp only [hne, Bool.not_false, Bool.not_true, Bool.false_eq_true, if_false,
              Option.map_some, Option.getD_some]
            split
            · rename_i hend
              rw [hrange, inRange_ended hasc hrange hlast hend, List.append_nil]
            · have hnext := inRange_next hasc hrange hlast (hmax b hb.1)
              have hlen : (inRange dataset (b.header.number + 1) toBlock).length < fuel := by
                rw [hrange, List.length_append] at hfuel
                rw [hnext]
                have := List.length_pos_of_mem hmem
                omega
              rw [ih hlen, hnext, hrange, Option.map_some, List.map_append]

/--
**Pagination delivers the range.** Over ascending blocks below the maximal number,
and whatever the portal cuts off of its answers, the stream yields exactly the
blocks of the range, in order and without an error, and then ends.
-/
theorem streamBlocks_delivers
    (hasc : dataset.Pairwise (fun x y => x.header.number < y.header.number))
    (hmax : ∀ b ∈ dataset, b.header.number < BitVec.allOnes 64)
    (hportal : Answers fromStr dataset portal) (fromBlock : U64) (toBlock : Option U64) {fuel : Nat}
    (hfuel : dataset.length < fuel) :
    streamBlocks fromStr portal fuel fromBlock toBlock
      = some ((inRange dataset fromBlock toBlock).map Except.ok) := by
  refine streamFrom_delivers hasc hmax hportal toBlock ?_
  exact Nat.lt_of_le_of_lt (List.length_filter_le _ _) hfuel

end Delivers

/-! ## A portal that sends one block at a time -/

def blockTen : Block := { header := { number := 10 } }
def blockTwelve : Block := { header := { number := 12 } }

/-- The two blocks as the portal writes them. -/
def blockText (b : Block) : String :=
  if b = blockTen then "\x7b\"header\":\x7b\"number\":10\x7d\x7d"
  else "\x7b\"header\":\x7b\"number\":12\x7d\x7d"

def blockFromStr (line : String) : Option Block :=
  if line = blockText blockTen then some blockTen
  else if line = blockText blockTwelve then some blockTwelve
  else none

/-- The first block that is left, without a newline behind it. -/
def onePortal : Portal := fun _ fromBlock toBlock _ =>
  .response 200
    [.ok (utf8 (((inRange [blockTen, blockTwelve] fromBlock toBlock).take 1).flatMap
      fun b => (blockText b).toList))]

theorem answers_onePortal : Answers blockFromStr [blockTen, blockTwelve] onePortal := by
  intro k fromBlock toBlock
  refine ⟨_, (inRange [blockTen, blockTwelve] fromBlock toBlock).take 1,
    (inRange [blockTen, blockTwelve] fromBlock toBlock).drop 1, rfl, ?_,
    (List.take_append_drop 1 _).symm, fun h => ?_⟩
  · cases hrange : inRange [blockTen, blockTwelve] fromBlock toBlock with
    | nil => exact ⟨[[]], [], [], rfl, rfl, .nil, .inl rfl⟩
    | cons b bs =>
        have hb := (mem_inRange.mp (hrange ▸ List.mem_cons_self)).1
        have hcarries : Carries blockFromStr [(blockText b).toList] [b] := by
          rcases List.mem_cons.mp hb with rfl | hb
          · exact .block (by decide) (by decide) (by decide) .nil
          · obtain rfl := List.mem_singleton.mp hb
            exact .block (by decide) (by decide) (by decide) .nil
        refine ⟨[utf8 (blockText b).toList], [(blockText b).toList], (blockText b).toList, ?_, ?_,
          hcarries, .inr ?_⟩
        · simp
        · simp
        · simp [Text.unlines]
  · cases hrange : inRange [blockTen, blockTwelve] fromBlock toBlock with
    | nil => rfl
    | cons b bs => simp [hrange] at h

theorem streamBlocks_delivers_onePortal :
    streamBlocks blockFromStr onePortal 3 10 (some 12)
      = some ((inRange [blockTen, blockTwelve] 10 (some 12)).map Except.ok) :=
  streamBlocks_delivers (by decide) (by decide) answers_onePortal 10 (some 12) (by decide)

end EvmState
