import EvmState.Proof.Pagination

/-!
# When the paginator advances

The cursor of the next request is one behind the last block of a response, whatever
that block is: nothing compares it with the cursor the request was made with. So the
requests of a stream ascend as long as each response that is not the last ends with a
block that was asked for and that has a successor (`requestsAdvance_iff`); then each of them
takes at least one block off the range.

A retry is another attempt at a request, and not a request of its own.
-/

namespace EvmState

open Framing

section Requests

variable (fromStr : String → Option Block) (portal : Portal) (toBlock : Option U64)

/-- The block that the stream goes on from behind its `k`-th request, if it does. -/
def goesOnFrom (k : Nat) (current : U64) : Option U64 :=
  match startRequest (portal k current toBlock) with
  | .error _ => none
  | .ok body =>
      match readBody fromStr [] body {} with
      | (_, .error _) => none
      | (st, .ok ()) =>
          let last := st.lastBlock.getD 0
          if !st.gotAny || toBlock.any (fun n => decide (n ≤ last)) then none else some last

/-- What the `k`-th request yields. -/
def requestItems (k : Nat) (current : U64) : List (Except FetchError Block) :=
  match startRequest (portal k current toBlock) with
  | .error e => [.error e]
  | .ok body =>
      match readBody fromStr [] body {} with
      | (st, .error e) => st.yielded.map Except.ok ++ [.error e]
      | (st, .ok ()) => st.yielded.map Except.ok

/-- `fromBlock` of the `k`-th request of a stream, if it makes that many. -/
def request (fromBlock : U64) : Nat → Option U64
  | 0 => if toBlock.any (fun n => decide (n < fromBlock)) then none else some fromBlock
  | k + 1 =>
      match (request fromBlock k).bind (goesOnFrom fromStr portal toBlock k) with
      | none => none
      | some last => if toBlock.any (fun n => decide (n < last + 1)) then none else some (last + 1)

/-- What the stream promises: requests that ascend, and with an end only so many of them. -/
structure RequestsAdvance (fromBlock : U64) : Prop where
  /-- Successive requests start at ascending blocks. -/
  ascending : ∀ k a b, request fromStr portal toBlock fromBlock k = some a →
    request fromStr portal toBlock fromBlock (k + 1) = some b → a < b
  /-- The next cursor is computed without overflow. -/
  noOverflow : ∀ k a last, request fromStr portal toBlock fromBlock k = some a →
    goesOnFrom fromStr portal toBlock k a = some last → last.toNat + 1 < 2 ^ 64
  /-- There are at most `t - fromBlock + 1` requests. -/
  bounded : ∀ t, toBlock = some t → ∀ k a, request fromStr portal toBlock fromBlock k = some a →
    fromBlock.toNat + k ≤ t.toNat
  /-- So many are enough for the stream to end. -/
  ends : ∀ t, toBlock = some t →
    (streamBlocks fromStr portal (t.toNat - fromBlock.toNat + 1) fromBlock toBlock).isSome

variable {fromStr portal toBlock} {fromBlock : U64}

/-- The end of the range has not come where the stream goes on. -/
theorem lt_of_goesOnFrom {k : Nat} {current last n : U64}
    (h : goesOnFrom fromStr portal toBlock k current = some last) (hto : toBlock = some n) :
    last < n := by
  unfold goesOnFrom at h
  split at h
  · cases h
  · split at h
    · cases h
    · rename_i st _
      by_cases hgot : st.gotAny = true
      · simp only [hto, hgot, Bool.not_true, Bool.false_or, Option.any_some, decide_eq_true_eq] at h
        split at h
        · cases h
        · -- a next request is made only past this test, so the last number read is below the end
          rename_i hle
          rw [← Option.some.inj h]
          bv_omega
      · simp [hgot] at h

/-- The cursor behind such a block is not past the end. -/
theorem not_passed_of_goesOnFrom {k : Nat} {current last : U64}
    (h : goesOnFrom fromStr portal toBlock k current = some last) :
    toBlock.any (fun n => decide (n < last + 1)) = false := by
  cases hto : toBlock with
  | none => rfl
  | some n =>
      have hlt := lt_of_goesOnFrom h hto
      rw [Option.any_some, decide_eq_false_iff_not]
      bv_omega

theorem request_succ {k : Nat} {a last : U64}
    (hreq : request fromStr portal toBlock fromBlock k = some a)
    (hgo : goesOnFrom fromStr portal toBlock k a = some last) :
    request fromStr portal toBlock fromBlock (k + 1) = some (last + 1) := by
  rw [request, hreq, Option.bind_some, hgo]
  simp only [not_passed_of_goesOnFrom hgo, Bool.false_eq_true, if_false]

/-- A request that is not the first comes from the one before it. -/
theorem request_succ_iff {k : Nat} {b : U64} :
    request fromStr portal toBlock fromBlock (k + 1) = some b
      ↔ ∃ a last, request fromStr portal toBlock fromBlock k = some a
          ∧ goesOnFrom fromStr portal toBlock k a = some last ∧ b = last + 1 := by
  constructor
  · intro h
    cases hreq : request fromStr portal toBlock fromBlock k with
    | none => simp [request, hreq] at h
    | some a =>
        cases hgo : goesOnFrom fromStr portal toBlock k a with
        | none => simp [request, hreq, hgo] at h
        | some last =>
            rw [request_succ hreq hgo] at h
            exact ⟨a, last, rfl, hgo, (Option.some.inj h).symm⟩
  · intro h
    obtain ⟨a, last, hreq, hgo, rfl⟩ := h
    exact request_succ hreq hgo

/-- No request comes after the last. -/
theorem request_none {k j : Nat} (h : request fromStr portal toBlock fromBlock k = none) :
    request fromStr portal toBlock fromBlock (k + j) = none := by
  induction j with
  | zero => exact h
  | succ j ih =>
      rw [← Nat.add_assoc]
      cases hreq : request fromStr portal toBlock fromBlock (k + j + 1) with
      | none => rfl
      | some b =>
          -- a request follows only a request, so none is made after the first that is not
          obtain ⟨a, _, ha, _⟩ := request_succ_iff.mp hreq
          rw [ih] at ha
          cases ha

/-! ## The stream makes these requests -/

/-- One request, and then the stream from there on. -/
theorem streamFrom_succ {k : Nat} {current : U64}
    (hto : toBlock.any (fun n => decide (n < current)) = false) (fuel : Nat) :
    streamFrom fromStr portal toBlock (fuel + 1) k current
      = ((goesOnFrom fromStr portal toBlock k current).elim (some []) fun last =>
          streamFrom fromStr portal toBlock fuel (k + 1) (last + 1)).map
            (requestItems fromStr portal toBlock k current ++ ·) := by
  rw [streamFrom, goesOnFrom, requestItems]
  simp only [hto, Bool.false_eq_true, if_false]
  cases startRequest (portal k current toBlock) with
  | error e => simp
  | ok body =>
      simp only
      cases readBody fromStr [] body {} with
      | mk st result =>
          cases result with
          | error e => simp
          | ok u =>
              cases hgot : st.gotAny with
              | false => simp [hgot]
              | true =>
                  dsimp only
                  generalize st.lastBlock.getD 0 = last
                  cases toBlock.any fun n => decide (n ≤ last) with
                  | true => simp [hgot]
                  | false => simp [hgot]

theorem isSome_streamFrom_succ {fuel k : Nat} {current : U64}
    (hto : toBlock.any (fun n => decide (n < current)) = false) :
    (streamFrom fromStr portal toBlock (fuel + 1) k current).isSome = true
      ↔ ∀ last, goesOnFrom fromStr portal toBlock k current = some last →
          (streamFrom fromStr portal toBlock fuel (k + 1) (last + 1)).isSome = true := by
  rw [streamFrom_succ hto, Option.isSome_map]
  cases goesOnFrom fromStr portal toBlock k current <;> simp

/-- **The stream has ended after `n + 1` requests** exactly if it makes no further one. -/
theorem isSome_streamFrom_iff (fuel : Nat) {k : Nat} {current : U64}
    (hreq : request fromStr portal toBlock fromBlock k = some current)
    (hto : toBlock.any (fun n => decide (n < current)) = false) :
    (streamFrom fromStr portal toBlock (fuel + 1) k current).isSome = true
      ↔ request fromStr portal toBlock fromBlock (k + fuel + 1) = none := by
  induction fuel generalizing k current with
  | zero =>
      rw [isSome_streamFrom_succ hto]
      cases hgo : goesOnFrom fromStr portal toBlock k current with
      | none => simp [request, hreq, hgo]
      | some last => simp [streamFrom, request_succ hreq hgo]
  | succ fuel ih =>
      rw [isSome_streamFrom_succ hto]
      cases hgo : goesOnFrom fromStr portal toBlock k current with
      | none =>
          -- the stream ends with this request, so none is made later either
          have hnone : request fromStr portal toBlock fromBlock (k + 1) = none := by
            simp [request, hreq, hgo]
          have := request_none (j := fuel + 1) hnone
          rw [show k + 1 + (fuel + 1) = k + (fuel + 1) + 1 by omega] at this
          simp [this]
      | some last =>
          have hnext := ih (request_succ hreq hgo) (not_passed_of_goesOnFrom hgo)
          rw [show k + (fuel + 1) + 1 = k + 1 + fuel + 1 by omega, ← hnext]
          simp

theorem isSome_streamBlocks_iff {n : Nat} :
    (streamBlocks fromStr portal (n + 1) fromBlock toBlock).isSome = true
      ↔ request fromStr portal toBlock fromBlock (n + 1) = none := by
  cases hto : toBlock.any fun m => decide (m < fromBlock) with
  | true =>
      have hnone : request fromStr portal toBlock fromBlock 0 = none := by simp [request, hto]
      have := request_none (j := n + 1) hnone
      rw [Nat.zero_add] at this
      simp [streamBlocks, streamFrom, hto, this]
  | false =>
      have hreq : request fromStr portal toBlock fromBlock 0 = some fromBlock := by
        simp [request, hto]
      have := isSome_streamFrom_iff n hreq hto
      rwa [Nat.zero_add] at this

/-- Where every response ends at or behind its cursor, the `k`-th cursor is `k` further on. -/
theorem request_bounds
    (hgo : ∀ k a last, request fromStr portal toBlock fromBlock k = some a →
      goesOnFrom fromStr portal toBlock k a = some last → a ≤ last ∧ last < BitVec.allOnes 64)
    {k : Nat} {a : U64} (h : request fromStr portal toBlock fromBlock k = some a) :
    fromBlock.toNat + k ≤ a.toNat ∧ ∀ t, toBlock = some t → a ≤ t := by
  induction k generalizing a with
  | zero =>
      rw [request] at h
      split at h
      · cases h
      · rename_i hto
        rw [← Option.some.inj h]
        refine ⟨Nat.le_refl _, fun t ht => ?_⟩
        simp only [ht, Option.any_some, decide_eq_true_eq] at hto
        bv_omega
  | succ k ih =>
      obtain ⟨a', last, hreq, hlast, rfl⟩ := request_succ_iff.mp h
      obtain ⟨hle, hmax⟩ := hgo k a' last hreq hlast
      obtain ⟨hk, _⟩ := ih hreq
      -- `last` is below the top of the range, so the next number does not wrap
      have hsucc : (last + 1).toNat = last.toNat + 1 := by bv_omega
      refine ⟨by bv_omega, fun t ht => ?_⟩
      have hlt := lt_of_goesOnFrom hlast ht
      bv_omega

/--
**When the paginator advances.** The requests of a stream ascend without overflow,
and end within the range where it has an end, if and only if every response that
another request follows ends with a block at or behind its `fromBlock` that is not
the last of all numbers.
-/
theorem requestsAdvance_iff :
    RequestsAdvance fromStr portal toBlock fromBlock
      ↔ ∀ k a last, request fromStr portal toBlock fromBlock k = some a →
          goesOnFrom fromStr portal toBlock k a = some last →
          a ≤ last ∧ last < BitVec.allOnes 64 := by
  constructor
  · intro h k a last hreq hgo
    have hlt := h.ascending k a (last + 1) hreq (request_succ hreq hgo)
    have hmax := h.noOverflow k a last hreq hgo
    have hones : (BitVec.allOnes 64).toNat = 2 ^ 64 - 1 := BitVec.toNat_allOnes
    exact ⟨by bv_omega, by bv_omega⟩
  · intro h
    refine ⟨fun k a b ha hb => ?_, fun k a last ha hgo => ?_, fun t ht k a ha => ?_,
      fun t ht => ?_⟩
    · obtain ⟨a', last, ha', hgo, rfl⟩ := request_succ_iff.mp hb
      obtain rfl := Option.some.inj (ha.symm.trans ha')
      obtain ⟨hle, hmax⟩ := h k a last ha hgo
      bv_omega
    · obtain ⟨_, hmax⟩ := h k a last ha hgo
      bv_omega
    · obtain ⟨hk, ht'⟩ := request_bounds h ha
      have := ht' t ht
      bv_omega
    · rw [isSome_streamBlocks_iff]
      cases hreq : request fromStr portal toBlock fromBlock (t.toNat - fromBlock.toNat + 1) with
      | none => rfl
      | some a =>
          -- the cursor would be past the end
          obtain ⟨hk, ht'⟩ := request_bounds h hreq
          have := ht' t ht
          bv_omega

end Requests

/-! ## A portal that does not look at the range -/

/-- Block 10, whatever was asked for. -/
def sameBlockPortal : Portal := fun _ _ _ _ =>
  .response 200 [.ok (utf8 (blockText blockTen).toList)]

theorem serves_sameBlock :
    Serves blockFromStr [.ok (utf8 (blockText blockTen).toList)] [blockTen] := by
  have hcarries : Carries blockFromStr [(blockText blockTen).toList] [blockTen] :=
    .block (by decide) (by decide) (by decide) .nil
  exact ⟨[utf8 (blockText blockTen).toList], [(blockText blockTen).toList],
    (blockText blockTen).toList, rfl, by simp, hcarries, .inr (by simp [Text.unlines])⟩

theorem goesOnFrom_sameBlock (k : Nat) (current : U64) :
    goesOnFrom blockFromStr sameBlockPortal (some 20) k current = some 10 := by
  have hstart : startRequest (sameBlockPortal k current (some 20))
      = .ok [.ok (utf8 (blockText blockTen).toList)] := rfl
  rw [goesOnFrom, hstart]
  simp only [readBody_serves serves_sameBlock]
  decide

/-- The second request starts before the first, and the stream of blocks 12 to 20 never ends. -/
theorem sameBlockPortal_stuck :
    ¬ RequestsAdvance blockFromStr sameBlockPortal (some 20) 12
      ∧ ∀ fuel, streamBlocks blockFromStr sameBlockPortal fuel 12 (some 20) = none := by
  have hfirst : request blockFromStr sameBlockPortal (some 20) 12 0 = some 12 := by decide
  -- the portal answers every request with the same block, so another request always follows
  have hrest : ∀ k, ∃ a, request blockFromStr sameBlockPortal (some 20) 12 k = some a := by
    intro k
    induction k with
    | zero => exact ⟨12, hfirst⟩
    | succ k ih =>
        obtain ⟨a, ha⟩ := ih
        exact ⟨_, request_succ ha (goesOnFrom_sameBlock k a)⟩
  constructor
  · intro h
    have := h.ascending 0 12 11 hfirst (request_succ hfirst (goesOnFrom_sameBlock 0 12))
    exact absurd this (by decide)
  · intro fuel
    cases fuel with
    | zero => rfl
    | succ n =>
        obtain ⟨a, ha⟩ := hrest (n + 1)
        have hiff := isSome_streamBlocks_iff.not.mpr (by rw [ha]; exact Option.some_ne_none a)
        exact Option.not_isSome_iff_eq_none.mp hiff

end EvmState
