import EvmState.Proof.Schedule
import Mathlib.Order.Bounds.Basic

/-!
# The fork schedule goes forward only

In a schedule that lists its forks oldest first the lookup from the back finds the
newest fork in force, whichever of the two clocks put it in force
(`isGreatest_specAt`). What is in force stays so as block numbers and timestamps grow,
hence the newest fork never gives way to an older one, and neither does the fork that
consecutive blocks are replayed under.
-/

namespace EvmState

theorem SpecId.ctorIdx_inj {s s' : SpecId} (h : s.ctorIdx = s'.ctorIdx) : s = s' := by
  rw [← SpecId.ofNat_ctorIdx s, h, SpecId.ofNat_ctorIdx]

/-- Forks are ordered by age, the oldest first. -/
instance : PartialOrder SpecId where
  le s s' := s.ctorIdx ≤ s'.ctorIdx
  le_refl s := Nat.le_refl s.ctorIdx
  le_trans _ _ _ h h' := Nat.le_trans h h'
  le_antisymm _ _ h h' := SpecId.ctorIdx_inj (Nat.le_antisymm h h')

theorem SpecId.le_iff (s s' : SpecId) : s ≤ s' ↔ s'.isEnabledIn s = true := by
  rw [isEnabledIn, decide_eq_true_eq]
  exact Iff.rfl

theorem SpecId.frontier_le (s : SpecId) : .FRONTIER ≤ s := Nat.zero_le s.ctorIdx

/-- The forks in force at a block and a time: the first one, and those activated. -/
def ChainSpec.inForce (c : ChainSpec) (n t : U64) : Set SpecId :=
  {s | s = .FRONTIER ∨ ∃ hf ∈ c.hardforks, hf.condition.active n t = true ∧ hf.specId = s}

theorem specAt_mem_inForce (c : ChainSpec) (n t : U64) : c.specAt n t ∈ c.inForce n t := by
  rcases hfind : c.hardforks.reverse.find? (fun hf => hf.condition.active n t) with _ | hf
  · left
    rw [ChainSpec.specAt, hfind]
  · right
    have hmem : hf ∈ c.hardforks := List.mem_reverse.mp (List.mem_of_find?_eq_some hfind)
    have hactive : hf.condition.active n t = true := by simpa using List.find?_some hfind
    exact ⟨hf, hmem, hactive, by rw [ChainSpec.specAt, hfind]⟩

/-- The lookup finds the newest fork in force. -/
theorem isGreatest_specAt {c : ChainSpec} (hc : c.Ordered) (n t : U64) :
    IsGreatest (c.inForce n t) (c.specAt n t) := by
  refine ⟨specAt_mem_inForce c n t, ?_⟩
  intro s hs
  by_cases hfirst : s = .FRONTIER
  · rw [hfirst]
    exact SpecId.frontier_le _
  · obtain ⟨hf, hmem, hactive, rfl⟩ := hs.resolve_left hfirst
    rw [SpecId.le_iff, specAt_isEnabledIn hc n t hfirst]
    refine List.any_eq_true.mpr ⟨hf, hmem, ?_⟩
    simp [hactive, SpecId.isEnabledIn]

theorem inForce_mono {c : ChainSpec} {n n' t t' : U64} (hn : n ≤ n') (ht : t ≤ t') :
    c.inForce n t ⊆ c.inForce n' t' := by
  intro s hs
  rcases hs with hfirst | ⟨hf, hmem, hactive, heq⟩
  · exact .inl hfirst
  · exact .inr ⟨hf, hmem, HardforkCondition.active_mono hn ht hactive, heq⟩

theorem specAt_mono {c : ChainSpec} (hc : c.Ordered) {n n' t t' : U64} (hn : n ≤ n')
    (ht : t ≤ t') : c.specAt n t ≤ c.specAt n' t' :=
  (isGreatest_specAt hc n t).mono (isGreatest_specAt hc n' t') (inForce_mono hn ht)

/-! ## Blocks in a row -/

/-- One block after another: the next number, and a time that has not gone back. -/
def Block.Next (b b' : Block) : Prop :=
  b'.header.number.toNat = b.header.number.toNat + 1
    ∧ b.header.timestamp.getD 0 ≤ b'.header.timestamp.getD 0

theorem replayCfg_spec_mono {c : ChainSpec} (hc : c.Ordered) {b b' : Block} (h : b.Next b') :
    (replayCfg c b).spec ≤ (replayCfg c b').spec := by
  obtain ⟨hnumber, htime⟩ := h
  have hle : b.header.number ≤ b'.header.number :=
    show b.header.number.toNat ≤ b'.header.number.toNat by omega
  exact specAt_mono hc hle htime

theorem pairwise_replayCfg {c : ChainSpec} (hc : c.Ordered) {blocks : List Block}
    (h : blocks.IsChain Block.Next) :
    (blocks.map fun b => (replayCfg c b).spec).Pairwise (· ≤ ·) := by
  rw [List.pairwise_map]
  have hle : blocks.IsChain fun b b' => (replayCfg c b).spec ≤ (replayCfg c b').spec :=
    h.imp fun b b' hnext => replayCfg_spec_mono hc hnext
  have htrans : Trans (fun b b' : Block => (replayCfg c b).spec ≤ (replayCfg c b').spec)
      (fun b b' => (replayCfg c b).spec ≤ (replayCfg c b').spec)
      (fun b b' => (replayCfg c b).spec ≤ (replayCfg c b').spec) := ⟨le_trans⟩
  exact List.isChain_iff_pairwise.mp hle

/--
**The fork schedule is monotone.** Where forks are listed oldest first, which holds of
both built-in specs, `spec_at` is the newest fork in force, never goes back as blocks
and time go on, and no block is replayed under an older fork than the block before it.
-/
theorem schedule_monotone :
    polygonMainnet.Ordered ∧ ethereumMainnet.Ordered
      ∧ ∀ c : ChainSpec, c.Ordered →
          (∀ n t, IsGreatest (c.inForce n t) (c.specAt n t))
            ∧ (∀ n n' t t' : U64, n ≤ n' → t ≤ t' → c.specAt n t ≤ c.specAt n' t')
            ∧ ∀ blocks : List Block, blocks.IsChain Block.Next →
                (blocks.map fun b => (replayCfg c b).spec).Pairwise (· ≤ ·) := by
  refine ⟨polygonMainnet_ordered, ethereumMainnet_ordered, ?_⟩
  intro c hc
  refine ⟨?_, ?_, ?_⟩
  · intro n t
    exact isGreatest_specAt hc n t
  · intro n n' t t' hn ht
    exact specAt_mono hc hn ht
  · intro blocks h
    exact pairwise_replayCfg hc h

end EvmState
