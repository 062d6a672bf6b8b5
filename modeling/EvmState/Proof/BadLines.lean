import EvmState.Proof.Requests
import EvmState.Proof.Streaming

/-!
# Bad lines and the errors they become

A line that is no block becomes an error of the portal, unless the excerpt for that
error is cut inside a character (`readLine_returns_iff`). The same is then true of a
whole stream: its errors are those of its requests (`error_mem_streamFrom`), an error of
a request is one of its lines or of the transport (`readBody_eq`), and so a stream
delivers no errors but values of `Error` as long as none of its requests reaches such a
line, whether it ends or not.
-/

namespace EvmState

open Framing

/-- A value of `Error::Portal`. -/
def FetchError.isPortal : FetchError → Bool
  | .http => false
  | .sliceInChar => false
  | _ => true

/-! ## One line -/

section Lines

variable {fromStr : String → Option Block}

theorem isPortal_of_parsePiece {piece : Bytes} {e : FetchError}
    (h : parsePiece fromStr piece = .error e) : e.isPortal = true := by
  unfold parsePiece at h
  split at h
  · exact Except.error.inj h ▸ rfl
  · cases h
  · split at h
    · exact Except.error.inj h ▸ rfl
    · split at h
      · cases h
      · exact Except.error.inj h ▸ rfl

/-- A line is read, or is an error of the portal, exactly if no excerpt of it is cut. -/
theorem readLine_returns_iff (piece : Bytes) :
    ((∃ r, readLine fromStr piece = .ok r)
        ∨ ∃ e, readLine fromStr piece = .error e ∧ e.isPortal = true)
      ↔ ¬ CutsChar fromStr piece := by
  rcases readLine_cases fromStr piece with ⟨hcut, hread⟩ | ⟨hcut, hread, _⟩
  · refine iff_of_true ?_ hcut
    cases hparse : parsePiece fromStr piece with
    | ok r => exact .inl ⟨r, hread.trans hparse⟩
    | error e => exact .inr ⟨e, hread.trans hparse, isPortal_of_parsePiece hparse⟩
  · refine iff_of_false ?_ (not_not.mpr hcut)
    intro h
    rw [hread] at h
    rcases h with ⟨r, hr⟩ | ⟨e, he, hportal⟩
    · cases hr
    · obtain rfl := Except.error.inj he
      cases hportal

theorem readLine_sliceInChar_iff (piece : Bytes) :
    readLine fromStr piece = .error .sliceInChar ↔ CutsChar fromStr piece := by
  constructor
  · intro h
    by_contra hcut
    rcases (readLine_returns_iff piece).mpr hcut with ⟨r, hr⟩ | ⟨e, he, hportal⟩
    · rw [h] at hr
      cases hr
    · rw [h] at he
      -- no error of the portal is the panic
      obtain rfl := Except.error.inj he
      cases hportal
  · intro hcut
    rcases readLine_cases fromStr piece with h | h
    · exact absurd hcut h.1
    · exact h.2.1

end Lines

/-! ## One response -/

/-- The lines of a response that are read, as far as its chunks arrive. -/
def handedLines : Bytes → List (Except FetchError Bytes) → List Bytes
  | buffer, [] => if buffer.isEmpty then [] else [buffer]
  | _, .error _ :: _ => []
  | buffer, .ok chunk :: chunks =>
      (split 10 [] (buffer ++ chunk)).1 ++ handedLines (split 10 [] (buffer ++ chunk)).2 chunks

/-- What the transport has to say at the end of a response. -/
def transportEnd : List (Except FetchError Bytes) → Except FetchError Unit
  | [] => .ok ()
  | .error e :: _ => .error e
  | .ok _ :: chunks => transportEnd chunks

/-- There is a line whose excerpt is cut, and every line before it is read. -/
def ReachesCutLine (fromStr : String → Option Block) (lines : List Bytes) : Prop :=
  ∃ pre piece post, lines = pre ++ piece :: post
    ∧ (∀ p ∈ pre, ∃ r, readLine fromStr p = .ok r) ∧ CutsChar fromStr piece

section Response

variable {fromStr : String → Option Block}

/-- The lines are read one after another, and the transport has the last word. -/
theorem readBody_eq (buffer : Bytes) (body : List (Except FetchError Bytes)) (st : PageState) :
    (readBody fromStr buffer body st).2
      = match (readLines fromStr (handedLines buffer body) st).2 with
        | .ok () => transportEnd body
        | .error e => .error e := by
  induction body generalizing buffer st with
  | nil =>
      rw [readBody, handedLines, transportEnd]
      cases buffer with
      | nil => rfl
      | cons b bs =>
          simp only [List.isEmpty_cons, Bool.false_eq_true, if_false]
          cases (readLines fromStr [b :: bs] st).2 <;> rfl
  | cons chunk chunks ih =>
      cases chunk with
      | error e => rfl
      | ok chunk =>
          rw [readBody, handedLines, readLines_append, transportEnd]
          -- the lines complete so far are parsed before the next chunk is awaited
          cases readLines fromStr (split 10 [] (buffer ++ chunk)).1 st with
          | mk st' result =>
              cases result with
              | error e => rfl
              | ok u => exact ih _ st'

theorem readLines_error_iff (lines : List Bytes) (st : PageState) (e : FetchError) :
    (readLines fromStr lines st).2 = .error e
      ↔ ∃ pre piece post, lines = pre ++ piece :: post
          ∧ (∀ p ∈ pre, ∃ r, readLine fromStr p = .ok r) ∧ readLine fromStr piece = .error e := by
  rw [readLines, Lists.runUntil_error_iff]
  constructor
  · intro h
    obtain ⟨pre', post', heq, hpre⟩ := h
    obtain ⟨pre, rest, hlines, hmap, hrest⟩ := List.map_eq_append_iff.mp heq
    obtain ⟨piece, post, rfl, hpiece, _⟩ := List.map_eq_cons_iff.mp hrest
    refine ⟨pre, piece, post, hlines, ?_, hpiece⟩
    intro p hp
    exact hpre _ (hmap ▸ List.mem_map_of_mem hp)
  · intro h
    obtain ⟨pre, piece, post, rfl, hpre, hpiece⟩ := h
    refine ⟨pre.map (readLine fromStr), post.map (readLine fromStr), by simp [hpiece], ?_⟩
    intro x hx
    obtain ⟨p, hp, rfl⟩ := List.mem_map.mp hx
    exact hpre p hp

theorem readLines_sliceInChar_iff (lines : List Bytes) (st : PageState) :
    (readLines fromStr lines st).2 = .error .sliceInChar ↔ ReachesCutLine fromStr lines := by
  rw [readLines_error_iff]
  simp only [readLine_sliceInChar_iff]
  exact Iff.rfl

/-- An error of a response is one of the portal or of the transport, if no cut is reached. -/
theorem isPortal_of_readBody {body : List (Except FetchError Bytes)} {e : FetchError}
    (hcut : ¬ ReachesCutLine fromStr (handedLines [] body))
    (h : (readBody fromStr [] body {}).2 = .error e) :
    e.isPortal = true ∨ transportEnd body = .error e := by
  rw [readBody_eq] at h
  cases hlines : (readLines fromStr (handedLines [] body) {}).2 with
  | ok u =>
      rw [hlines] at h
      -- every line was read, so the error is how the transport ended
      exact .inr h
  | error e' =>
      rw [hlines] at h
      obtain rfl : e' = e := Except.error.inj h
      obtain ⟨pre, piece, post, heq, hpre, hpiece⟩ := (readLines_error_iff _ _ _).mp hlines
      have hpiececut : ¬ CutsChar fromStr piece := fun hc => hcut ⟨pre, piece, post, heq, hpre, hc⟩
      rcases (readLine_returns_iff piece).mpr hpiececut with ⟨r, hr⟩ | ⟨e'', he, hportal⟩
      · rw [hpiece] at hr
        cases hr
      · rw [hpiece] at he
        obtain rfl := Except.error.inj he
        exact .inl hportal

end Response

/-! ## A whole stream -/

/-- Failing to get a response is an error of the portal or of the transport. -/
theorem isPortal_of_attempts {reply : Nat → Reply} {last e : FetchError} {left attempt : Nat}
    (hlast : last.isPortal = true ∨ last = .http)
    (h : attempts reply attempt last left = .error e) : e.isPortal = true ∨ e = .http := by
  induction left generalizing attempt last with
  | zero => exact Except.error.inj h ▸ hlast
  | succ left ih =>
      unfold attempts at h
      split at h
      · split at h
        · -- a transient status waits, with the error kept for when no attempt is left
          exact ih (.inl rfl) h
        · split at h
          · exact .inl (Except.error.inj h ▸ rfl)
          · cases h
      · exact ih (.inr rfl) h
      · exact .inr (Except.error.inj h).symm

section Stream

variable {fromStr : String → Option Block} {portal : Portal} {toBlock : Option U64}
  {fromBlock : U64}

/-- The error a request ends the stream with. -/
def RequestFails (fromStr : String → Option Block) (portal : Portal) (toBlock : Option U64)
    (k : Nat) (current : U64) (e : FetchError) : Prop :=
  startRequest (portal k current toBlock) = .error e
    ∨ ∃ body, startRequest (portal k current toBlock) = .ok body
        ∧ (readBody fromStr [] body {}).2 = .error e

theorem requestFails_of_response {k : Nat} {current : U64} {e : FetchError}
    {body : List (Except FetchError Bytes)}
    (hstart : startRequest (portal k current toBlock) = .ok body) :
    RequestFails fromStr portal toBlock k current e
      ↔ (readBody fromStr [] body {}).2 = .error e := by
  simp [RequestFails, hstart]

theorem error_mem_requestItems {k : Nat} {current : U64} {e : FetchError} :
    .error e ∈ requestItems fromStr portal toBlock k current
      ↔ RequestFails fromStr portal toBlock k current e := by
  rw [requestItems]
  cases hstart : startRequest (portal k current toBlock) with
  | error e' => simp [RequestFails, hstart, eq_comm]
  | ok body =>
      rw [requestFails_of_response hstart]
      dsimp only
      generalize readBody fromStr [] body {} = page
      obtain ⟨st, result⟩ := page
      cases result with
      | error e' => simp [eq_comm]
      | ok u => simp

/-- What one request adds to the errors of the stream. -/
theorem error_mem_streamFrom_succ {fuel k : Nat} {current : U64} {e : FetchError}
    {items : List (Except FetchError Block)}
    (hto : toBlock.any (fun n => decide (n < current)) = false)
    (h : streamFrom fromStr portal toBlock (fuel + 1) k current = some items) :
    .error e ∈ items
      ↔ RequestFails fromStr portal toBlock k current e
        ∨ ∃ last rest, goesOnFrom fromStr portal toBlock k current = some last
            ∧ streamFrom fromStr portal toBlock fuel (k + 1) (last + 1) = some rest
            ∧ .error e ∈ rest := by
  rw [streamFrom_succ hto, Option.map_eq_some_iff] at h
  obtain ⟨rest, hrest, rfl⟩ := h
  rw [List.mem_append, error_mem_requestItems]
  -- an error of this request, or one of the rest of the stream
  refine or_congr Iff.rfl ?_
  cases hgo : goesOnFrom fromStr portal toBlock k current with
  | none =>
      rw [hgo] at hrest
      cases hrest
      simp
  | some last =>
      rw [hgo] at hrest
      constructor
      · intro hmem
        exact ⟨last, rest, rfl, hrest, hmem⟩
      · rintro ⟨last', rest', hlast, hrest', hmem⟩
        obtain rfl := Option.some.inj hlast
        obtain rfl := Option.some.inj (hrest'.symm.trans hrest)
        exact hmem

/-- **The errors of a stream are those of the requests it makes.** -/
theorem error_mem_streamFrom {fuel k : Nat} {current : U64} {e : FetchError}
    {items : List (Except FetchError Block)}
    (hreq : request fromStr portal toBlock fromBlock k = some current)
    (hto : toBlock.any (fun n => decide (n < current)) = false)
    (h : streamFrom fromStr portal toBlock fuel k current = some items) :
    .error e ∈ items
      ↔ ∃ j a, k ≤ j ∧ request fromStr portal toBlock fromBlock j = some a
          ∧ RequestFails fromStr portal toBlock j a e := by
  induction fuel generalizing k current items with
  | zero => cases h
  | succ fuel ih =>
      rw [error_mem_streamFrom_succ hto h]
      constructor
      · intro hx
        rcases hx with hfails | ⟨last, rest, hgo, hrest, hmem⟩
        · exact ⟨k, current, Nat.le_refl k, hreq, hfails⟩
        · obtain ⟨j, a, hj, ha, hfails⟩ :=
            (ih (request_succ hreq hgo) (not_passed_of_goesOnFrom hgo) hrest).mp hmem
          exact ⟨j, a, by omega, ha, hfails⟩
      · intro hx
        obtain ⟨j, a, hj, ha, hfails⟩ := hx
        by_cases hk : j = k
        · subst hk
          obtain rfl : current = a := Option.some.inj (hreq.symm.trans ha)
          exact .inl hfails
        · -- a later request comes from this one, so the stream goes on from here
          right
          cases hgo : goesOnFrom fromStr portal toBlock k current with
          | none =>
              have hnone : request fromStr portal toBlock fromBlock (k + 1) = none := by
                simp [request, hreq, hgo]
              have := request_none (j := j - (k + 1)) hnone
              rw [show k + 1 + (j - (k + 1)) = j by omega, ha] at this
              cases this
          | some last =>
              have hsome : (streamFrom fromStr portal toBlock (fuel + 1) k current).isSome = true := by
                rw [h, Option.isSome_some]
              obtain ⟨rest, hrest⟩ :=
                Option.isSome_iff_exists.mp ((isSome_streamFrom_succ hto).mp hsome last hgo)
              refine ⟨last, rest, rfl, hrest, ?_⟩
              exact (ih (request_succ hreq hgo) (not_passed_of_goesOnFrom hgo) hrest).mpr
                ⟨j, a, by omega, ha, hfails⟩

/-- The stream reaches a line whose excerpt is cut. -/
def StreamReachesCut (fromStr : String → Option Block) (portal : Portal) (toBlock : Option U64)
    (fromBlock : U64) : Prop :=
  ∃ k a body, request fromStr portal toBlock fromBlock k = some a
    ∧ startRequest (portal k a toBlock) = .ok body ∧ ReachesCutLine fromStr (handedLines [] body)

/-- What the transport reports while a body arrives is an `Error::Http`. -/
def Portal.TransportErrors (portal : Portal) (toBlock : Option U64) : Prop :=
  ∀ k a body e, startRequest (portal k a toBlock) = .ok body → transportEnd body = .error e →
    e = .http

/-- A request fails with a value of `Error`, unless it reaches a cut. -/
theorem isPortal_of_requestFails (hhttp : portal.TransportErrors toBlock) {k : Nat} {a : U64}
    {e : FetchError} (hreq : request fromStr portal toBlock fromBlock k = some a)
    (hcut : ¬ StreamReachesCut fromStr portal toBlock fromBlock)
    (h : RequestFails fromStr portal toBlock k a e) : e.isPortal = true ∨ e = .http := by
  rcases h with hstart | ⟨body, hstart, hread⟩
  · exact isPortal_of_attempts (.inl rfl) hstart
  · have hbody : ¬ ReachesCutLine fromStr (handedLines [] body) :=
      fun hreach => hcut ⟨k, a, body, hreq, hstart, hreach⟩
    rcases isPortal_of_readBody hbody hread with hportal | hend
    · exact .inl hportal
    · exact .inr (hhttp k a body e hstart hend)

theorem requestFails_sliceInChar {k : Nat} {a : U64} {body : List (Except FetchError Bytes)}
    (hstart : startRequest (portal k a toBlock) = .ok body)
    (hcut : ReachesCutLine fromStr (handedLines [] body)) :
    RequestFails fromStr portal toBlock k a .sliceInChar := by
  right
  refine ⟨body, hstart, ?_⟩
  rw [readBody_eq, (readLines_sliceInChar_iff _ _).mpr hcut]

/-- What the requests of a stream deliver, whether or not the stream ever ends. -/
theorem requests_return_iff (hhttp : portal.TransportErrors toBlock) :
    (∀ k a, request fromStr portal toBlock fromBlock k = some a →
        ∀ e, .error e ∈ requestItems fromStr portal toBlock k a →
          e.isPortal = true ∨ e = .http)
      ↔ ¬ StreamReachesCut fromStr portal toBlock fromBlock := by
  constructor
  · intro hall hreach
    obtain ⟨k, a, body, ha, hstart, hcut⟩ := hreach
    -- the first request that reaches a cut character panics there
    have hmem : .error .sliceInChar ∈ requestItems fromStr portal toBlock k a :=
      error_mem_requestItems.mpr (requestFails_sliceInChar hstart hcut)
    rcases hall k a ha _ hmem with hportal | hhttp
    · cases hportal
    · cases hhttp
  · intro hcut k a ha e hmem
    exact isPortal_of_requestFails hhttp ha hcut (error_mem_requestItems.mp hmem)

theorem streamBlocks_returns_iff (hhttp : portal.TransportErrors toBlock) {fuel : Nat}
    {items : List (Except FetchError Block)}
    (h : streamBlocks fromStr portal fuel fromBlock toBlock = some items) :
    (∀ e, .error e ∈ items → e.isPortal = true ∨ e = .http)
      ↔ ¬ StreamReachesCut fromStr portal toBlock fromBlock := by
  cases hto : toBlock.any fun n => decide (n < fromBlock) with
  | true =>
      -- the range is empty and no request is made
      have hnone : request fromStr portal toBlock fromBlock 0 = none := by simp [request, hto]
      have hitems : items = [] := by
        cases fuel with
        | zero => cases h
        | succ fuel =>
            simp only [streamBlocks, streamFrom, hto, if_true, Option.some.injEq] at h
            exact h.symm
      refine iff_of_true (by simp [hitems]) ?_
      intro hreach
      obtain ⟨k, a, body, hreq, _⟩ := hreach
      have := request_none (j := k) hnone
      rw [Nat.zero_add, hreq] at this
      cases this
  | false =>
      -- the stream has ended, so what its requests delivered is all of it
      have hreq : request fromStr portal toBlock fromBlock 0 = some fromBlock := by
        simp [request, hto]
      rw [← requests_return_iff hhttp]
      constructor
      · intro hall k a ha e hmem
        refine hall e ((error_mem_streamFrom hreq hto h).mpr ⟨k, a, Nat.zero_le k, ha, ?_⟩)
        exact error_mem_requestItems.mp hmem
      · intro hall e hmem
        obtain ⟨k, a, _, ha, hfails⟩ := (error_mem_streamFrom hreq hto h).mp hmem
        exact hall k a ha e (error_mem_requestItems.mpr hfails)

end Stream

/--
**When a bad line is an error.** A line is read or becomes an error of the portal
exactly if it is not cut for its excerpt. The requests of a stream, which may go on for
ever, deliver nothing but values of `Error` beside blocks exactly if none of them reaches
such a line, and so does the whole of a stream that ends.
-/
theorem bad_line_is_error_iff (fromStr : String → Option Block) :
    (∀ piece : Bytes,
        ((∃ r, readLine fromStr piece = .ok r)
            ∨ ∃ e, readLine fromStr piece = .error e ∧ e.isPortal = true)
          ↔ ¬ CutsChar fromStr piece)
      ∧ ∀ (portal : Portal) (toBlock : Option U64) (fromBlock : U64),
          portal.TransportErrors toBlock →
            ((∀ k a, request fromStr portal toBlock fromBlock k = some a →
                ∀ e, .error e ∈ requestItems fromStr portal toBlock k a →
                  e.isPortal = true ∨ e = .http)
              ↔ ¬ StreamReachesCut fromStr portal toBlock fromBlock)
            ∧ ∀ (fuel : Nat) (items : List (Except FetchError Block)),
                streamBlocks fromStr portal fuel fromBlock toBlock = some items →
                  ((∀ e, .error e ∈ items → e.isPortal = true ∨ e = .http)
                    ↔ ¬ StreamReachesCut fromStr portal toBlock fromBlock) := by
  constructor
  · intro piece
    exact readLine_returns_iff piece
  · intro portal toBlock fromBlock hhttp
    constructor
    · exact requests_return_iff hhttp
    · intro fuel items h
      exact streamBlocks_returns_iff hhttp h

/-- **A bad line and no error for it**: its excerpt ends inside the last character. -/
theorem bad_line_panics :
    ¬ ((∃ r, readLine (fun _ => none) (utf8 accentedLine) = .ok r)
        ∨ ∃ e, readLine (fun _ => none) (utf8 accentedLine) = .error e
            ∧ e.isPortal = true) := by
  intro h
  exact (readLine_returns_iff _).mp h cutsChar_accentedLine

end EvmState
