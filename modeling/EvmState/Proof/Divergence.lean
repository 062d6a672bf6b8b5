import EvmState.Proof.RpcParams
import EvmState.Validation.Validate

/-!
# The divergence search finds a boundary

The search keeps a window whose upper end diverges and below whose lower end there is
either nothing or a block that agrees. Halving keeps that whatever the history looks
like, so where the window closes a block that diverges follows one that does not
(`searchLoop_boundary`). A history that changes over once has one such place.
-/

namespace EvmState

theorem checkedAdd_eq {a b : U64} (h : a.toNat + b.toNat < 2 ^ 64) : checkedAdd a b = .ok (a + b) :=
  if_pos h

/-- Inside a window that is not closed, the midpoint is computed without overflow. -/
theorem exists_midpoint {lo hi : U64} (h : lo < hi) : ∃ mid, midpoint lo hi = .ok mid := by
  have hsub : checkedSub hi lo = .ok (hi - lo) := if_pos (BitVec.le_of_lt h)
  have hlen : (hi - lo).toNat = hi.toNat - lo.toNat := BitVec.toNat_sub_of_le (BitVec.le_of_lt h)
  refine ⟨lo + (hi - lo) / 2, ?_⟩
  rw [midpoint, hsub]
  refine checkedAdd_eq ?_
  rw [BitVec.toNat_udiv, hlen, show (2 : U64).toNat = 2 from rfl]
  bv_omega

/-- A block that diverges, and nothing below it in the window or a block that does not. -/
structure Boundary (remote : U64 → U256) (localValue : U256) (low high b : U64) : Prop where
  low_le : low ≤ b
  le_high : b ≤ high
  diverges : remote b ≠ localValue
  first : b = low ∨ remote (b - 1) = localValue

section Search

variable {node : U64 → Except ValidationError U256} {remote : U64 → U256} {localValue : U256}
  {low high : U64}

/-- **The loop closes on a boundary**, and no arithmetic on the way overflows. -/
theorem searchLoop_boundary (hnode : ∀ b, low ≤ b → b ≤ high → node b = .ok (remote b))
    {lo hi : U64} (hlow : low ≤ lo) (hle : lo ≤ hi) (hhigh : hi ≤ high)
    (hhi : remote hi ≠ localValue) (hlo : lo = low ∨ remote (lo - 1) = localValue) :
    ∃ b, searchLoop node localValue lo hi = .ok b ∧ Boundary remote localValue low high b := by
  fun_induction searchLoop node localValue lo hi with
  | case1 lo hi hlt e hmid =>
      obtain ⟨mid, hok⟩ := exists_midpoint hlt
      rw [hok] at hmid
      cases hmid
  | case2 lo hi hlt mid hmid e he =>
      obtain ⟨_, hval⟩ := toNat_of_midpoint hmid
      rw [hnode mid (by bv_omega) (by bv_omega)] at he
      cases he
  | case3 lo hi hlt mid hmid e hnext hmatch =>
      obtain ⟨_, hval⟩ := toNat_of_midpoint hmid
      rw [checkedAdd_eq (by bv_omega)] at hnext
      cases hnext
  | case4 lo hi hlt mid hmid lo' hnext hmatch ih =>
      -- the midpoint agrees: the window goes on right behind it
      obtain ⟨_, hval⟩ := toNat_of_midpoint hmid
      have hnext' := toNat_of_checkedAdd hnext
      have hmid' : mid = lo' - 1 := by bv_omega
      rw [hnode mid (by bv_omega) (by bv_omega), Except.ok.injEq, hmid'] at hmatch
      exact ih (by bv_omega) (by bv_omega) hhigh hhi (.inr hmatch)
  | case5 lo hi hlt mid hmid value hvalue hmatch ih =>
      obtain ⟨_, hval⟩ := toNat_of_midpoint hmid
      rw [hnode mid (by bv_omega) (by bv_omega), Except.ok.injEq] at hvalue
      exact ih hlow (by bv_omega) (by bv_omega) (hvalue ▸ hmatch) hlo
  | case6 lo hi hlt =>
      obtain rfl : lo = hi := by bv_omega
      exact ⟨lo, rfl, ⟨hlow, hhigh, hhi, hlo⟩⟩

/-- A history that agrees up to some block and differs from then on has one boundary. -/
theorem Boundary.eq_first {b first : U64} (h : Boundary remote localValue low high b)
    (hlow : low ≤ first)
    (hfirst : ∀ b, low ≤ b → b ≤ high → (remote b = localValue ↔ b < first)) : b = first := by
  have hge : ¬ b < first := fun hlt => h.diverges ((hfirst b h.low_le h.le_high).mpr hlt)
  have hhigh := h.le_high
  rcases h.first with hb | hb
  · bv_omega
  · by_cases heq : b = low
    · bv_omega
    · have hlt : b - 1 < first := by
        have hlow' := h.low_le
        exact (hfirst (b - 1) (by bv_omega) (by bv_omega)).mp hb
      bv_omega

/-- The search ends with nothing, or with a boundary. -/
theorem exists_findDivergenceBlock {rpc : EthRpc} {address : Address} {slot : B256}
    (hnode : ∀ b, low ≤ b → b ≤ high → rpc.getStorageAt address slot b = .ok (remote b))
    (hle : low ≤ high) (localValue : U256) :
    ∃ result, findDivergenceBlock rpc address slot localValue low high = .ok result
      ∧ (result = none ↔ remote high = localValue)
      ∧ ∀ b, result = some b → Boundary remote localValue low high b := by
  have hhigh := hnode high hle (BitVec.le_refl _)
  have hlow := hnode low (BitVec.le_refl _) hle
  by_cases hmatch : remote high = localValue
  · exact ⟨none, by simp [findDivergenceBlock, hhigh, hmatch], by simp [hmatch], by simp⟩
  · -- both answers for the ends leave a boundary: the lower end, or where the loop closes
    obtain ⟨b, hb, hbound⟩ : ∃ b, findDivergenceBlock rpc address slot localValue low high
        = .ok (some b) ∧ Boundary remote localValue low high b := by
      by_cases hlowest : remote low = localValue
      · obtain ⟨b, hb, hbound⟩ := searchLoop_boundary hnode (BitVec.le_refl _) hle
          (BitVec.le_refl _) hmatch (.inl rfl)
        exact ⟨b, by simp [findDivergenceBlock, hhigh, hlow, hmatch, hlowest, hb, Except.map],
          hbound⟩
      · exact ⟨low, by simp [findDivergenceBlock, hhigh, hlow, hmatch, hlowest],
          ⟨BitVec.le_refl _, hle, hlowest, .inl rfl⟩⟩
    exact ⟨some b, hb, by simp [hmatch], fun b' hb' => Option.some.inj hb' ▸ hbound⟩

/-- What it ends with, where the history changes over once. -/
theorem eq_some_first {result : Option U64} (hnone : result = none ↔ remote high = localValue)
    (hbound : ∀ b, result = some b → Boundary remote localValue low high b) {first : U64}
    (hle : low ≤ high) (hlow : low ≤ first) (hhigh : first ≤ high)
    (hfirst : ∀ b, low ≤ b → b ≤ high → (remote b = localValue ↔ b < first)) :
    result = some first := by
  cases result with
  | none => exact absurd ((hfirst high hle (BitVec.le_refl _)).mp (hnone.mp rfl)) (by bv_omega)
  | some b => rw [(hbound b rfl).eq_first hlow hfirst]

/--
**The divergence search finds a true boundary.** For any history of a slot on the
node it ends without overflow, with nothing exactly if the node agrees at the upper
end, and otherwise with a block that differs, whose predecessor agrees unless it is
the lower end. If the history changes over once in the range, that is the place.
-/
theorem findDivergenceBlock_boundary {rpc : EthRpc} {address : Address} {slot : B256}
    (hnode : ∀ b, low ≤ b → b ≤ high → rpc.getStorageAt address slot b = .ok (remote b))
    (hle : low ≤ high) (localValue : U256) :
    ∃ result, findDivergenceBlock rpc address slot localValue low high = .ok result
      ∧ (result = none ↔ remote high = localValue)
      ∧ (∀ b, result = some b → Boundary remote localValue low high b)
      ∧ ∀ first, low ≤ first → first ≤ high →
          (∀ b, low ≤ b → b ≤ high → (remote b = localValue ↔ b < first)) →
          result = some first := by
  obtain ⟨result, hrun, hnone, hbound⟩ := exists_findDivergenceBlock hnode hle localValue
  exact ⟨result, hrun, hnone, hbound, fun _ hlow hhigh hfirst =>
    eq_some_first hnone hbound hle hlow hhigh hfirst⟩

/--
Over the client, that is so where what is posted for the slot is replied to with its value at
each block of the range.
-/
theorem findDivergenceBlock_replies {client : EthRpcClient} (hjson : Json.Reads client.fromStr)
    {address : Address} {slot : B256}
    (hnode : ∀ b, low ≤ b → b ≤ high →
      client.Replies (.getStorageAt address slot b) (B256.toHex (remote b)))
    (hle : low ≤ high) (localValue : U256) :
    ∃ result, findDivergenceBlock client.rpc address slot localValue low high = .ok result
      ∧ (result = none ↔ remote high = localValue)
      ∧ (∀ b, result = some b → Boundary remote localValue low high b)
      ∧ ∀ first, low ≤ first → first ≤ high →
          (∀ b, low ≤ b → b ≤ high → (remote b = localValue ↔ b < first)) →
          result = some first := by
  obtain ⟨result, hrun, hnone, hbound⟩ := exists_findDivergenceBlock
    (fun b hlow hhigh => EthRpcClient.getStorageAt_of_replies hjson (hnode b hlow hhigh)) hle
    localValue
  exact ⟨result, hrun, hnone, hbound, fun _ hlow hhigh hfirst =>
    eq_some_first hnone hbound hle hlow hhigh hfirst⟩

/-- A node that refuses the request for the upper end fails the search. -/
theorem findDivergenceBlock_refused {client : EthRpcClient} (hjson : Json.Reads client.fromStr)
    {address : Address} {slot : B256} (h : client.Refuses (.getStorageAt address slot high)) :
    ∃ e, findDivergenceBlock client.rpc address slot localValue low high = .error e := by
  obtain ⟨e, he⟩ := EthRpcClient.getStorageAt_of_refuses hjson h
  exact ⟨e, by rw [findDivergenceBlock, he]⟩

end Search

/-- A slot that is set at block 100. -/
def setAt100 (block : U64) : U256 := if block < 100 then 0 else 1

/-- A node with that history. -/
def setAt100Rpc : EthRpc where
  getBalance := fun _ _ => .ok 0
  getNonce := fun _ _ => .ok 0
  getCode := fun _ _ => .ok []
  getStorageAt := fun _ _ block => .ok (setAt100 block)

/-- Searching all of `u64` finds that block. -/
theorem findDivergenceBlock_setAt100 :
    findDivergenceBlock setAt100Rpc 0 0 0 0 (BitVec.allOnes 64) = .ok (some 100) := by
  have hnode : ∀ b : U64, 0 ≤ b → b ≤ BitVec.allOnes 64 →
      setAt100Rpc.getStorageAt 0 0 b = .ok (setAt100 b) := fun _ _ _ => rfl
  obtain ⟨result, hrun, _, _, hfirst⟩ := findDivergenceBlock_boundary hnode (by decide) 0
  have hresult : result = some 100 := by
    refine hfirst 100 (by decide) (by decide) fun b _ _ => ?_
    simp [setAt100]
  rw [hrun, hresult]

end EvmState
