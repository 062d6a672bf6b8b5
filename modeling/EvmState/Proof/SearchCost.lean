import EvmState.Lib.Dialogue
import EvmState.Proof.Divergence

/-!
# What a divergence search asks

Every step of the search is a request to an archive node. Written as a dialogue with the
node, it asks for blocks of its range alone, and for few of them: each answer halves the
window, whatever it says, so that 66 requests do for all of `u64` (`findSteps_asked`).
A node that changes its answers on the way makes no difference to that.
-/

namespace EvmState

/-- The loop of `find_divergence_block`, with its requests. -/
def searchSteps (localValue : U256) (lo hi : U64) :
    Dialogue U64 (fun _ => U256) (Except ValidationError U64) :=
  if lo < hi then
    match _hmid : midpoint lo hi with
    | .error e => .done (.error e)
    | .ok mid => .ask mid fun value =>
        if value = localValue then
          match _hnext : checkedAdd mid 1 with
          | .error e => .done (.error e)
          | .ok lo' => searchSteps localValue lo' hi
        else searchSteps localValue lo mid
  else .done (.ok lo)
termination_by hi.toNat - lo.toNat
decreasing_by
  · have hm := toNat_of_midpoint _hmid
    have hn := toNat_of_checkedAdd _hnext
    bv_omega
  · have hm := toNat_of_midpoint _hmid
    bv_omega

/-- `find_divergence_block`, with its requests. -/
def findSteps (localValue : U256) (lowBlock highBlock : U64) :
    Dialogue U64 (fun _ => U256) (Except ValidationError (Option U64)) :=
  .ask highBlock fun remoteHigh =>
    if remoteHigh = localValue then .done (.ok none)
    else .ask lowBlock fun remoteLow =>
      if remoteLow ≠ localValue then .done (.ok (some lowBlock))
      else (searchSteps localValue lowBlock highBlock).bind fun r => .done (r.map some)

section Steps

variable {localValue : U256} {lo hi mid next : U64}

theorem searchSteps_closed (h : ¬ lo < hi) : searchSteps localValue lo hi = .done (.ok lo) := by
  rw [searchSteps, if_neg h]

/-- A step of the loop: a midpoint, asked about, and the half its answer leaves. -/
theorem searchSteps_open (h : lo < hi) (hmid : midpoint lo hi = .ok mid)
    (hnext : checkedAdd mid 1 = .ok next) :
    searchSteps localValue lo hi
      = .ask mid fun value =>
          if value = localValue then searchSteps localValue next hi
          else searchSteps localValue lo mid := by
  rw [searchSteps, if_pos h]
  split
  · -- neither sum overflows on an open window, so the error branches are void
    rename_i e he
    rw [hmid] at he
    cases he
  · rename_i mid' hmid'
    obtain rfl : mid = mid' := Except.ok.inj (hmid.symm.trans hmid')
    congr 1
    funext value
    split
    · split
      · rename_i e he
        rw [hnext] at he
        cases he
      · rename_i next' hnext'
        obtain rfl : next = next' := Except.ok.inj (hnext.symm.trans hnext')
        rfl
    · rfl

end Steps

/-- The loop is such a step as well. -/
theorem searchLoop_open {node : U64 → Except ValidationError U256} {localValue : U256}
    {lo hi mid next : U64} (h : lo < hi) (hmid : midpoint lo hi = .ok mid)
    (hnext : checkedAdd mid 1 = .ok next) :
    searchLoop node localValue lo hi
      = (node mid).bind fun value =>
          if value = localValue then searchLoop node localValue next hi
          else searchLoop node localValue lo mid := by
  rw [searchLoop, if_pos h]
  split
  · rename_i e he
    rw [hmid] at he
    cases he
  · rename_i mid' hmid'
    obtain rfl : mid = mid' := Except.ok.inj (hmid.symm.trans hmid')
    cases node mid with
    | error e => rfl
    | ok value =>
        simp only [Except.bind]
        split
        · split
          · rename_i e he
            rw [hnext] at he
            cases he
          · rename_i next' hnext'
            obtain rfl : next = next' := Except.ok.inj (hnext.symm.trans hnext')
            rfl
        · rfl

/-- The midpoint of a window, and what is behind it. -/
theorem exists_halves {lo hi : U64} (h : lo < hi) :
    ∃ mid next, midpoint lo hi = .ok mid ∧ checkedAdd mid 1 = .ok next
      ∧ mid.toNat = lo.toNat + (hi.toNat - lo.toNat) / 2 ∧ next.toNat = mid.toNat + 1 := by
  obtain ⟨mid, hmid⟩ := exists_midpoint h
  obtain ⟨_, hval⟩ := toNat_of_midpoint hmid
  have hnext : checkedAdd mid 1 = .ok (mid + 1) := checkedAdd_eq (by bv_omega)
  exact ⟨mid, mid + 1, hmid, hnext, hval, toNat_of_checkedAdd hnext⟩

section Search

variable {node : U64 → Except ValidationError U256} {localValue : U256}

/-- Against a node, the dialogue is the loop. -/
theorem eval_searchSteps (lo hi : U64) :
    (Dialogue.eval node (searchSteps localValue lo hi)).bind id
      = searchLoop node localValue lo hi := by
  induction hn : hi.toNat - lo.toNat using Nat.strong_induction_on generalizing lo hi with
  | _ n ih =>
    -- on the length of the window: both halves are shorter
    by_cases hlt : lo < hi
    · obtain ⟨mid, next, hmid, hnext, hval, hsucc⟩ := exists_halves hlt
      rw [searchSteps_open hlt hmid hnext, searchLoop_open hlt hmid hnext, Dialogue.eval]
      cases node mid with
      | error e => rfl
      | ok value =>
          dsimp only [Except.bind]
          by_cases hmatch : value = localValue
          · rw [if_pos hmatch, if_pos hmatch]
            exact ih _ (by bv_omega) next hi rfl
          · rw [if_neg hmatch, if_neg hmatch]
            exact ih _ (by bv_omega) lo mid rfl
    · rw [searchSteps_closed hlt, searchLoop, if_neg hlt]
      rfl

/-- A midpoint is asked about, and then what is asked in one of the halves, if anything. -/
theorem poses_open {lo hi : U64} (h : lo < hi) {requests : List U64}
    (hr : (searchSteps localValue lo hi).Poses requests) :
    ∃ mid next rest, requests = mid :: rest
      ∧ mid.toNat = lo.toNat + (hi.toNat - lo.toNat) / 2 ∧ next.toNat = mid.toNat + 1
      ∧ (rest = [] ∨ (searchSteps localValue next hi).Poses rest
        ∨ (searchSteps localValue lo mid).Poses rest) := by
  obtain ⟨mid, next, hmid, hnext, hval, hsucc⟩ := exists_halves h
  rw [searchSteps_open h hmid hnext] at hr
  obtain ⟨rest, rfl, rfl | ⟨value, hrest⟩⟩ := Dialogue.poses_ask hr
  · exact ⟨mid, next, [], rfl, hval, hsucc, .inl rfl⟩
  · by_cases hmatch : value = localValue
    · rw [if_pos hmatch] at hrest
      exact ⟨mid, next, rest, rfl, hval, hsucc, .inr (.inl hrest)⟩
    · rw [if_neg hmatch] at hrest
      exact ⟨mid, next, rest, rfl, hval, hsucc, .inr (.inr hrest)⟩

theorem poses_closed {lo hi : U64} (h : ¬ lo < hi) {requests : List U64}
    (hr : (searchSteps localValue lo hi).Poses requests) : requests = [] := by
  rw [searchSteps_closed h] at hr
  exact Dialogue.poses_done hr

/-- **What the loop asks**: blocks of its window, each at most once. -/
theorem searchSteps_poses {lo hi : U64} {requests : List U64}
    (hr : (searchSteps localValue lo hi).Poses requests) :
    (∀ b ∈ requests, lo ≤ b ∧ b < hi) ∧ requests.Nodup := by
  induction hn : hi.toNat - lo.toNat using Nat.strong_induction_on generalizing lo hi requests with
  | _ n ih =>
    by_cases hlt : lo < hi
    · obtain ⟨mid, next, rest, rfl, hval, hsucc, hrest⟩ := poses_open hlt hr
      -- whichever half is gone on with, the midpoint is not in it
      have hwithin : (∀ b ∈ rest, lo ≤ b ∧ b < hi ∧ b ≠ mid) ∧ rest.Nodup := by
        rcases hrest with rfl | hrest | hrest
        · exact ⟨by simp, List.nodup_nil⟩
        · obtain ⟨hwithin, hnodup⟩ := ih _ (by bv_omega) hrest rfl
          refine ⟨fun b hb => ?_, hnodup⟩
          have := hwithin b hb
          bv_omega
        · obtain ⟨hwithin, hnodup⟩ := ih _ (by bv_omega) hrest rfl
          refine ⟨fun b hb => ?_, hnodup⟩
          have := hwithin b hb
          bv_omega
      obtain ⟨hwithin, hnodup⟩ := hwithin
      refine ⟨List.forall_mem_cons.mpr ⟨by bv_omega, fun b hb => ?_⟩,
        List.nodup_cons.mpr ⟨?_, hnodup⟩⟩
      · exact ⟨(hwithin b hb).1, (hwithin b hb).2.1⟩
      · exact fun hb => (hwithin mid hb).2.2 rfl
    · obtain rfl := poses_closed hlt hr
      exact ⟨by simp, List.nodup_nil⟩

/-- **Every answer halves the window.** -/
theorem length_searchSteps {k : Nat} {lo hi : U64} (hk : hi.toNat - lo.toNat < 2 ^ k)
    {requests : List U64} (hr : (searchSteps localValue lo hi).Poses requests) :
    requests.length ≤ k := by
  induction k generalizing lo hi requests with
  | zero =>
      obtain rfl := poses_closed (by bv_omega) hr
      exact Nat.le_refl 0
  | succ k ih =>
      by_cases hlt : lo < hi
      · obtain ⟨mid, next, rest, rfl, hval, hsucc, hrest⟩ := poses_open hlt hr
        rw [List.length_cons]
        -- one request, and the window that is left has at most half the blocks
        refine Nat.succ_le_succ ?_
        rw [Nat.pow_succ] at hk
        rcases hrest with rfl | hrest | hrest
        · exact Nat.zero_le _
        · exact ih (by bv_omega) hrest
        · exact ih (by bv_omega) hrest
      · obtain rfl := poses_closed hlt hr
        exact Nat.zero_le _

/-- Against a node, the whole dialogue is the whole search. -/
theorem eval_findSteps (rpc : EthRpc) (address : Address) (slot : B256) (low high : U64) :
    (Dialogue.eval (rpc.getStorageAt address slot) (findSteps localValue low high)).bind id
      = findDivergenceBlock rpc address slot localValue low high := by
  rw [findSteps, findDivergenceBlock, Dialogue.eval]
  cases rpc.getStorageAt address slot high with
  | error e => rfl
  | ok remoteHigh =>
      dsimp only
      by_cases hhigh : remoteHigh = localValue
      · rw [if_pos hhigh, if_pos hhigh]
        rfl
      · rw [if_neg hhigh, if_neg hhigh, Dialogue.eval]
        cases rpc.getStorageAt address slot low with
        | error e => rfl
        | ok remoteLow =>
            dsimp only
            by_cases hlow : remoteLow ≠ localValue
            · rw [if_pos hlow, if_pos hlow]
              rfl
            · rw [if_neg hlow, if_neg hlow, Dialogue.eval_bind, ← eval_searchSteps]
              cases Dialogue.eval (rpc.getStorageAt address slot)
                (searchSteps localValue low high) <;> rfl

/-- The ends are asked about first, and then perhaps what the loop asks. -/
theorem findSteps_poses {low high : U64} {requests : List U64}
    (hr : (findSteps localValue low high).Poses requests) :
    requests = [high] ∨ requests = [high, low]
      ∨ ∃ loop, requests = high :: low :: loop ∧ (searchSteps localValue low high).Poses loop := by
  rw [findSteps] at hr
  -- a request may also be the last because the node fails it
  obtain ⟨rest, rfl, rfl | ⟨remoteHigh, hrest⟩⟩ := Dialogue.poses_ask hr
  · exact .inl rfl
  · by_cases hhigh : remoteHigh = localValue
    · rw [if_pos hhigh] at hrest
      obtain rfl := Dialogue.poses_done hrest
      exact .inl rfl
    · rw [if_neg hhigh] at hrest
      obtain ⟨loop, rfl, rfl | ⟨remoteLow, hloop⟩⟩ := Dialogue.poses_ask hrest
      · exact .inr (.inl rfl)
      · by_cases hlow : remoteLow ≠ localValue
        · rw [if_pos hlow] at hloop
          obtain rfl := Dialogue.poses_done hloop
          exact .inr (.inl rfl)
        · rw [if_neg hlow] at hloop
          exact .inr (.inr ⟨loop, rfl, Dialogue.poses_bind_done hloop⟩)

/--
**A divergence search asks little.** However its requests are answered, the same block
differently each time or not at all, those of one search are for blocks of its range, none
but the lower end twice, and two more than the range can be halved: at most 66. With a node
that answers a block always the same, the dialogue is `find_divergence_block`.
-/
theorem findSteps_asked {low high : U64} (hle : low ≤ high) (localValue : U256) :
    (∀ (rpc : EthRpc) (address : Address) (slot : B256),
        (Dialogue.eval (rpc.getStorageAt address slot) (findSteps localValue low high)).bind id
            = findDivergenceBlock rpc address slot localValue low high
          ∧ (findSteps localValue low high).Poses
              (Dialogue.asked (rpc.getStorageAt address slot) (findSteps localValue low high)))
      ∧ ∀ requests, (findSteps localValue low high).Poses requests →
          (∀ b ∈ requests, low ≤ b ∧ b ≤ high)
            ∧ (∀ b, b ≠ low → requests.count b ≤ 1)
            ∧ (∀ k, high.toNat - low.toNat < 2 ^ k → requests.length ≤ k + 2)
            ∧ requests.length ≤ 66 := by
  refine ⟨fun rpc address slot => ⟨eval_findSteps rpc address slot low high,
    Dialogue.poses_asked _ _⟩, fun requests hr => ?_⟩
  have hlength : ∀ k, high.toNat - low.toNat < 2 ^ k → requests.length ≤ k + 2 := by
    intro k hk
    rcases findSteps_poses hr with rfl | rfl | ⟨loop, rfl, hloop⟩
    · simp
    · simp
    · have := length_searchSteps hk hloop
      simp only [List.length_cons]
      omega
  refine ⟨?_, ?_, hlength, hlength 64 (by omega)⟩
  · have hhigh : low ≤ high ∧ high ≤ high := ⟨hle, BitVec.le_refl high⟩
    have hlow : low ≤ low ∧ low ≤ high := ⟨BitVec.le_refl low, hle⟩
    rcases findSteps_poses hr with rfl | rfl | ⟨loop, rfl, hloop⟩
    · simp [hhigh]
    · simp [hhigh]
    · obtain ⟨hwithin, _⟩ := searchSteps_poses hloop
      simp only [List.forall_mem_cons, hhigh, hlow, true_and]
      exact fun b hb => ⟨(hwithin b hb).1, BitVec.le_of_lt (hwithin b hb).2⟩
  · intro b hb
    have hlow : (low == b) = false := by simpa using hb.symm
    rcases findSteps_poses hr with rfl | rfl | ⟨loop, rfl, hloop⟩
    · exact List.count_le_length
    · rw [List.count_cons, List.count_singleton, hlow, if_neg Bool.false_ne_true]
      split <;> omega
    · obtain ⟨hwithin, hnodup⟩ := searchSteps_poses hloop
      rw [List.count_cons, List.count_cons, hlow]
      simp only [Bool.false_eq_true, if_false, Nat.add_zero]
      -- the upper end is outside of the loop's window
      by_cases hhigh : high = b
      · have hnot : b ∉ loop := fun hin =>
          absurd (hwithin b hin).2 (hhigh ▸ BitVec.lt_irrefl b)
        rw [List.count_eq_zero_of_not_mem hnot]
        split <;> omega
      · rw [if_neg (by simpa using hhigh)]
        exact List.nodup_iff_count_le_one.mp hnodup b

end Search

theorem findSteps_asked_setAt100 :
    (Dialogue.asked (setAt100Rpc.getStorageAt 0 0) (findSteps 0 0 (BitVec.allOnes 64))).length
      ≤ 66 := by
  obtain ⟨hnode, hrequests⟩ := @findSteps_asked 0 (BitVec.allOnes 64) (by decide) 0
  exact (hrequests _ (hnode setAt100Rpc 0 0).2).2.2.2

end EvmState
