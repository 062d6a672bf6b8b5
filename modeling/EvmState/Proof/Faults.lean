import EvmState.Proof.Pagination

/-!
# Portals that fail

A connection may break off anywhere, in the middle of a line or of a character. The lines
that had come by then are lines of the whole body (`split_prefix`), so what is yielded is a
first part of what the body would have served, and then the error
(`readBody_breaksOff`). Whatever fails and wherever, a stream yields a first part of the
range (`streamFrom_unreliable`).
-/

namespace EvmState

open Framing

/-! ## A page that breaks off -/

/-- Of a body that serves these blocks a first part came, and then an error. -/
def BreaksOff (fromStr : String → Option Block) (body : List (Except FetchError Bytes))
    (blocks : List Block) : Prop :=
  ∃ (whole came : List Bytes) (e : FetchError) (more : List (Except FetchError Bytes)),
    Serves fromStr (whole.map Except.ok) blocks ∧ came.flatten <+: whole.flatten
      ∧ body = came.map Except.ok ++ .error e :: more

section Page

variable {fromStr : String → Option Block}

/-- Up to the error the lines that are complete are read. -/
theorem readBody_error {buffer : Bytes} (h : 10 ∉ buffer) (chunks : List Bytes) (e : FetchError)
    (more : List (Except FetchError Bytes)) (st : PageState) :
    readBody fromStr buffer (chunks.map Except.ok ++ .error e :: more) st
      = match readLines fromStr (split 10 [] (buffer ++ chunks.flatten)).1 st with
        | (st', .ok ()) => (st', .error e)
        | (st', .error e') => (st', .error e') := by
  induction chunks generalizing buffer st with
  | nil =>
      have hnone : (split 10 [] buffer).1 = [] := by
        have := split_rest h []
        rw [List.append_nil] at this
        rw [this, split]
      rw [List.map_nil, List.nil_append, readBody, List.flatten_nil, List.append_nil, hnone]
      rfl
  | cons chunk chunks ih =>
      have hrest : 10 ∉ (split 10 [] (buffer ++ chunk)).2 := notMem_split (by simp) _
      rw [List.map_cons, List.cons_append, readBody, List.flatten_cons, ← List.append_assoc,
        split_append 10 [] (buffer ++ chunk), readLines_append]
      cases readLines fromStr (split 10 [] (buffer ++ chunk)).1 st with
      | mk st' result =>
          cases result with
          | error e' => rfl
          | ok u =>
              simp only [ih hrest st', split_rest hrest]

/-- The first lines carry first blocks. -/
theorem Carries.take {lines : List (List Char)} {blocks : List Block}
    (h : Carries fromStr lines blocks) (k : Nat) :
    ∃ front, front <+: blocks ∧ Carries fromStr (lines.take k) front := by
  induction h generalizing k with
  | nil => exact ⟨[], List.nil_prefix, by rw [List.take_nil]; exact .nil⟩
  | blank hline hblank _ ih =>
      cases k with
      | zero => exact ⟨[], List.nil_prefix, .nil⟩
      | succ k =>
          obtain ⟨front, hfront, hcarries⟩ := ih k
          exact ⟨front, hfront, .blank hline hblank hcarries⟩
  | @block line b _ _ hline hhead hparse _ ih =>
      cases k with
      | zero => exact ⟨[], List.nil_prefix, .nil⟩
      | succ k =>
          obtain ⟨front, hfront, hcarries⟩ := ih k
          exact ⟨b :: front, (List.cons_prefix_cons).mpr ⟨rfl, hfront⟩,
            .block hline hhead hparse hcarries⟩

/-- **What breaks off has yielded a first part.** -/
theorem readBody_breaksOff {body : List (Except FetchError Bytes)} {blocks : List Block}
    (h : BreaksOff fromStr body blocks) :
    ∃ e, (readBody fromStr [] body {}).2 = .error e
      ∧ (readBody fromStr [] body {}).1.yielded <+: blocks := by
  obtain ⟨whole, came, e, more, hserves, hcame, rfl⟩ := h
  obtain ⟨chunks, lines, text, hchunks, hbytes, hcarries, htext⟩ := hserves
  obtain rfl : whole = chunks := List.map_injective_iff.mpr (fun _ _ => Except.ok.inj) hchunks
  -- the lines that came are lines of the whole body
  have hframes : split 10 [] (utf8 (Text.unlines lines)) = (lines.map utf8, []) := by
    rw [utf8_unlines, ← List.append_nil (join 10 _)]
    refine split_join (fun f hf => ?_) List.not_mem_nil
    obtain ⟨line, hline, rfl⟩ := List.mem_map.mp hf
    exact newline_notMem_utf8 (hcarries.newline_notMem line hline)
  have hprefix : came.flatten <+: utf8 (Text.unlines lines) := by
    refine hcame.trans ?_
    rw [hbytes]
    rcases htext with rfl | htext
    · exact List.prefix_rfl
    · rw [← htext, utf8_append]
      exact List.prefix_append _ _
  obtain ⟨behind, hbehind⟩ := hprefix
  have hlines : (split 10 [] came.flatten).1 <+: lines.map utf8 := by
    have := split_append 10 [] came.flatten behind
    rw [hbehind, hframes] at this
    exact ⟨_, (congrArg Prod.fst this).symm⟩
  have htaken := List.prefix_iff_eq_take.mp hlines
  rw [← List.map_take] at htaken
  obtain ⟨front, hfront, hcarriesFront⟩ := hcarries.take (split 10 [] came.flatten).1.length
  refine ⟨e, ?_⟩
  rw [readBody_error List.not_mem_nil, List.nil_append, htaken, readLines_carries hcarriesFront]
  exact ⟨rfl, by simpa using hfront⟩

end Page

/-! ## A stream over such pages -/

/--
The portal sends nothing but first parts of what is in the range, whole pages or such
as break off, or it fails.
-/
def Unreliable (fromStr : String → Option Block) (dataset : List Block) (portal : Portal) : Prop :=
  ∀ (k : Nat) (fromBlock : U64) (toBlock : Option U64),
    (∃ e, startRequest (portal k fromBlock toBlock) = .error e)
      ∨ ∃ body served,
          startRequest (portal k fromBlock toBlock) = .ok body
            ∧ (Serves fromStr body served ∨ BreaksOff fromStr body served)
            ∧ served <+: inRange dataset fromBlock toBlock

section Stream

variable {fromStr : String → Option Block} {dataset : List Block} {portal : Portal}

theorem Answers.unreliable (h : Answers fromStr dataset portal) :
    Unreliable fromStr dataset portal := by
  intro k fromBlock toBlock
  obtain ⟨body, served, rest, hreq, hserves, hrange, _⟩ := h k fromBlock toBlock
  exact .inr ⟨body, served, hreq, .inl hserves, rest, hrange.symm⟩

/-- **Whatever fails, a first part of the range is yielded**, and at most an error behind it. -/
theorem streamFrom_unreliable
    (hasc : dataset.Pairwise (fun x y => x.header.number < y.header.number))
    (hmax : ∀ b ∈ dataset, b.header.number < BitVec.allOnes 64)
    (hportal : Unreliable fromStr dataset portal) (toBlock : Option U64) {fuel k : Nat}
    {current : U64} {items : List (Except FetchError Block)}
    (h : streamFrom fromStr portal toBlock fuel k current = some items) :
    ∃ sent rest, items = sent.map Except.ok ++ rest ∧ sent <+: inRange dataset current toBlock
      ∧ (rest = [] ∨ ∃ e, rest = [.error e]) := by
  induction fuel generalizing k current items with
  | zero => cases h
  | succ fuel ih =>
      rw [streamFrom] at h
      split at h
      · exact ⟨[], [], (Option.some.inj h).symm, List.nil_prefix, .inl rfl⟩
      · rcases hportal k current toBlock with ⟨e, hreq⟩ | ⟨body, served, hreq, hbody, hserved⟩
        · simp only [hreq, Option.some.injEq] at h
          exact ⟨[], [.error e], h.symm, List.nil_prefix, .inr ⟨e, rfl⟩⟩
        · simp only [hreq] at h
          rcases hbody with hbody | hbody
          · simp only [readBody_serves hbody] at h
            cases hlast : served.getLast? with
            | none =>
                obtain rfl := List.getLast?_eq_none_iff.mp hlast
                exact ⟨[], [], by simpa using h.symm, List.nil_prefix, .inl rfl⟩
            | some b =>
                obtain ⟨left, hrange⟩ := hserved
                have hmem : b ∈ served := List.mem_of_getLast? hlast
                have hb := mem_inRange.mp (hrange ▸ List.mem_append_left left hmem)
                have hne : served.isEmpty = false := by
                  cases served with
                  | nil => cases hmem
                  | cons x xs => rfl
                simp only [hlast, hne, Bool.not_false, Bool.not_true, Bool.false_eq_true, if_false,
                  Option.map_some, Option.getD_some] at h
                split at h
                · exact ⟨served, [], by simpa using h.symm, ⟨left, hrange⟩, .inl rfl⟩
                · -- the next request goes on behind what was served
                  obtain ⟨later, hlater, rfl⟩ := Option.map_eq_some_iff.mp h
                  obtain ⟨sent, rest, rfl, hsent, hrest⟩ := ih hlater
                  rw [inRange_next hasc hrange.symm hlast (hmax b hb.1)] at hsent
                  refine ⟨served ++ sent, rest, by simp, ?_, hrest⟩
                  rw [← hrange]
                  exact (List.prefix_append_right_inj served).mpr hsent
          · obtain ⟨e, herr, hyielded⟩ := readBody_breaksOff hbody
            simp only [herr, Option.some.injEq] at h
            exact ⟨_, [.error e], h.symm, hyielded.trans hserved, .inr ⟨e, rfl⟩⟩

end Stream

end EvmState
