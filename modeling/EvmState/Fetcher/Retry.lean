import EvmState.Fetcher.Stream
import EvmState.Lib.Retry

/-!
# Waiting between attempts

`start_request` waits before every attempt but the first, twice as long each time. What it
makes of a reply is `verdict`: server errors, timeouts and refused connections ask for
another attempt, everything else settles the request.
-/

namespace EvmState

/-- In seconds. -/
def INITIAL_BACKOFF : Nat := 1

/-- The wait before an attempt behind the first. -/
def backoff (attempt : Nat) : Nat := INITIAL_BACKOFF * 2 ^ (attempt - 1)

/-- What `start_request` makes of a reply. -/
def verdict : Reply → Retry.Verdict FetchError (List (Except FetchError Bytes))
  | .response status body =>
      if 500 ≤ status ∧ status < 600 then .again (.portalReturned status)
      else if 400 ≤ status ∧ status < 500 then .settled (.error (.portalError status))
      else .settled (.ok body)
  | .transient => .again .http
  | .failed => .settled (.error .http)

/-- The attempts are those of the retry loop. -/
theorem attempts_eq (reply : Nat → Reply) (attempt : Nat) (last : FetchError) (left : Nat) :
    attempts reply attempt last left = Retry.run verdict reply attempt last left := by
  induction left generalizing attempt last with
  | zero => rfl
  | succ left ih =>
      rw [attempts, Retry.run]
      cases reply attempt with
      | transient => exact ih _ _
      | failed => rfl
      | response status body =>
          simp only [verdict]
          split
          · exact ih _ _
          · split <;> rfl

/-- The waits of `start_request`, in order. -/
def waits (reply : Nat → Reply) : List Nat :=
  (List.range (Retry.tries verdict reply 0 MAX_RETRIES)).tail.map backoff

/-- A request never waits longer than this. -/
theorem sum_waits_le (reply : Nat → Reply) : (waits reply).sum ≤ 15 := by
  have hle : Retry.tries verdict reply 0 MAX_RETRIES ≤ 5 := Retry.tries_le 0 MAX_RETRIES
  rw [waits]
  generalize Retry.tries verdict reply 0 MAX_RETRIES = n at hle ⊢
  revert n
  decide

end EvmState
