import EvmState.Proof.Diffs
import EvmState.Proof.Execute

/-!
# Schedules and the environments of their blocks

A schedule lists its forks oldest first, so the fork `specAt` picks is the newest
active one, and a fork is enabled in it exactly when some fork at or after it is
active (`specAt_isEnabledIn`).

From MERGE on revm wants `prevrandao`, from CANCUN on it wants the blob fee.
`block_env_from_header` copies the former from the header and never sets the
latter: the environment is valid up to the block before Cancun and for no block
after it (`envValid_iff`).
-/

namespace EvmState

/-! ## The fork of a block -/

/-- Forks are scheduled oldest first. -/
def ChainSpec.Ordered (c : ChainSpec) : Prop :=
  c.hardforks.Pairwise (fun x y => x.specId.ctorIdx ≤ y.specId.ctorIdx)

instance (c : ChainSpec) : Decidable c.Ordered := by
  unfold ChainSpec.Ordered
  infer_instance

theorem find?_isEnabledIn {l : List HardforkActivation} {n t : U64} {s : SpecId}
    (hl : l.Pairwise (fun x y => y.specId.ctorIdx ≤ x.specId.ctorIdx)) :
    (match l.find? (fun hf => hf.condition.active n t) with
      | some hf => hf.specId.isEnabledIn s
      | none => false)
      = l.any (fun hf => hf.specId.isEnabledIn s && hf.condition.active n t) := by
  induction l with
  | nil => rfl
  | cons hf l ih =>
      obtain ⟨hle, hl⟩ := List.pairwise_cons.mp hl
      cases ha : hf.condition.active n t with
      | false =>
          rw [List.find?_cons_of_neg (by simp [ha]), ih hl]
          simp [ha]
      | true =>
          rw [List.find?_cons_of_pos (by simp [ha])]
          cases he : hf.specId.isEnabledIn s with
          | true => simp [ha, he]
          | false =>
              -- the later entries are older forks still
              have hlt : hf.specId.ctorIdx < s.ctorIdx := by simpa [SpecId.isEnabledIn] using he
              refine he.trans (List.any_eq_false.mpr fun x hx => ?_).symm
              rcases List.mem_cons.mp hx with rfl | hx
              · simp [he]
              · have := hle x hx
                simp only [SpecId.isEnabledIn, Bool.and_eq_true, decide_eq_true_eq, not_and]
                intro hs
                omega

/-- **A fork after the first is enabled exactly when it or a later one is active.** -/
theorem specAt_isEnabledIn {c : ChainSpec} (hc : c.Ordered) (n t : U64) {s : SpecId}
    (hs : s ≠ .FRONTIER) :
    (c.specAt n t).isEnabledIn s
      = c.hardforks.any (fun hf => hf.specId.isEnabledIn s && hf.condition.active n t) := by
  have hrev : c.hardforks.reverse.Pairwise (fun x y => y.specId.ctorIdx ≤ x.specId.ctorIdx) :=
    List.pairwise_reverse.mpr hc
  have hfirst : SpecId.FRONTIER.isEnabledIn s = false := by
    cases s <;> first | exact absurd rfl hs | rfl
  rw [← List.any_reverse, ← find?_isEnabledIn hrev, ChainSpec.specAt]
  cases c.hardforks.reverse.find? (fun hf => hf.condition.active n t) with
  | some hf => rfl
  | none => exact hfirst

theorem polygonMainnet_ordered : polygonMainnet.Ordered := by decide
theorem ethereumMainnet_ordered : ethereumMainnet.Ordered := by decide

theorem polygonMainnet_cancun (n t : U64) :
    (polygonMainnet.specAt n t).isEnabledIn .CANCUN = decide (54876000 ≤ n) := by
  rw [specAt_isEnabledIn polygonMainnet_ordered n t (by decide), Bool.eq_iff_iff]
  simp only [polygonMainnet, SpecId.isEnabledIn, HardforkCondition.active, List.any_cons,
    List.any_nil, Bool.or_false, Bool.or_eq_true, Bool.and_eq_true, decide_eq_true_eq]
  -- what is left compares the two clocks with the activations of the forks from Cancun on
  simp only [SpecId.ctorIdx]
  bv_omega

theorem ethereumMainnet_cancun (n t : U64) :
    (ethereumMainnet.specAt n t).isEnabledIn .CANCUN = decide (1710338135 ≤ t) := by
  rw [specAt_isEnabledIn ethereumMainnet_ordered n t (by decide), Bool.eq_iff_iff]
  simp only [ethereumMainnet, SpecId.isEnabledIn, HardforkCondition.active, List.any_cons,
    List.any_nil, Bool.or_false, Bool.or_eq_true, Bool.and_eq_true, decide_eq_true_eq]
  simp only [SpecId.ctorIdx]
  bv_omega

/-! ## The environment of a block -/

/-- The header fields the fetcher asks for are there. -/
structure BlockHeader.Complete (h : BlockHeader) : Prop where
  timestamp : h.timestamp.isSome
  miner : h.miner.isSome
  gasLimit : h.gasLimit.isSome
  baseFeePerGas : h.baseFeePerGas.isSome
  mixHash : h.mixHash.isSome
  difficulty : h.difficulty.isSome

/--
The fork and the environment fit: they pass header validation, and no replay of a
block with this header fails with a header error on a regular transaction.
-/
structure EnvValid (spec : ChainSpec) (header : BlockHeader) : Prop where
  valid : Evm.validHeader (spec.specAt header.number (header.timestamp.getD 0))
    (blockEnvFromHeader header) = true
  replay : ∀ {evm : Evm}, evm.HeaderRules →
    ∀ (keccak256 : Bytes → B256) (σ : HashOrder) (db : StateDb) {block : Block},
      block.header = header → ∀ n i reason f t h,
        (replayBlock evm keccak256 σ db block spec).result
          ≠ .error (.evm n i false (.header reason) f t h)

/-- A regular transaction is refused for the header only if header validation fails. -/
theorem replayBlock_header_error {evm : Evm} (hr : evm.HeaderRules) {keccak256 : Bytes → B256}
    {σ : HashOrder} {db : StateDb} {block : Block} {spec : ChainSpec} {n : U64} {i : Nat}
    {reason : String} {f t : Option Address} {h : Option B256}
    (herr : (replayBlock evm keccak256 σ db block spec).result
      = .error (.evm n i false (.header reason) f t h)) :
    Evm.validHeader (spec.specAt block.header.number (block.header.timestamp.getD 0))
      (blockEnvFromHeader block.header) = false := by
  have hcases := replayBlock_cases evm keccak256 σ db block spec
  generalize replayBlock evm keccak256 σ db block spec = r at herr hcases
  cases hcases with
  | failed hxs =>
      -- some transaction failed, and a header error is its execution's own
      obtain ⟨tx, _, i', c, hx⟩ := executeTxs_error hxs
      obtain rfl := Except.error.inj herr
      exact (hr db (replayCfg spec block) (blockEnvFromHeader block.header) _ c).mp
        ⟨reason, executeTx_error hx⟩
  | plain _ _ => cases herr
  | hybrid _ _ _ => cases herr
  | half _ _ happly =>
      obtain ⟨e, rfl⟩ := applyStateDiffs_error happly
      cases herr

theorem envValid_iff_validHeader {spec : ChainSpec} {header : BlockHeader} :
    EnvValid spec header
      ↔ Evm.validHeader (spec.specAt header.number (header.timestamp.getD 0))
          (blockEnvFromHeader header) = true := by
  refine ⟨EnvValid.valid, fun h => ⟨h, ?_⟩⟩
  intro evm hr keccak256 σ db block hx n i reason f t hash herr
  subst hx
  rw [replayBlock_header_error hr herr] at h
  cases h

/-- With `mixHash` at hand only the blob fee can be missing, and it always is. -/
theorem validHeader_blockEnvFromHeader {header : BlockHeader} (h : header.mixHash.isSome)
    (s : SpecId) :
    Evm.validHeader s (blockEnvFromHeader header) = !s.isEnabledIn .CANCUN := by
  simp [Evm.validHeader, blockEnvFromHeader, h]

/--
**Which scheduled blocks get a valid environment**: on Polygon those below block
54876000, on Ethereum those before timestamp 1710338135.
-/
theorem envValid_iff {header : BlockHeader} (h : header.Complete) :
    (EnvValid polygonMainnet header ↔ header.number < 54876000)
      ∧ (EnvValid ethereumMainnet header ↔ header.timestamp.getD 0 < 1710338135) := by
  constructor
  · rw [envValid_iff_validHeader, validHeader_blockEnvFromHeader h.mixHash, polygonMainnet_cancun]
    simp
  · rw [envValid_iff_validHeader, validHeader_blockEnvFromHeader h.mixHash, ethereumMainnet_cancun]
    simp

/-- Ethereum's first Cancun block, as the portal delivers it, with one transaction. -/
def cancunBlock : Block where
  header :=
    { number := 19426587
      timestamp := some 1710338135
      mixHash := some 1
      miner := some 0xFEE
      difficulty := some 0
      gasLimit := some 30000000
      baseFeePerGas := some 7 }
  transactions :=
    [{ fromAddr := some 0xA, toAddr := some 0xB, nonce := some 0, gas := some 21000 }]

theorem cancunBlock_complete : cancunBlock.header.Complete := by
  constructor <;> rfl

/-- The block is refused for its header. -/
theorem envValid_cancunBlock_false :
    cancunBlock.header.Complete
      ∧ (replayBlock (.counting fun _ => KECCAK256_EMPTY) (fun _ => KECCAK256_EMPTY) .sorted
          .empty cancunBlock ethereumMainnet).result
        = .error (.evm 19426587 0 false (.header "not set") (some 0xA) (some 0xB) none)
      ∧ ¬ EnvValid ethereumMainnet cancunBlock.header := by
  have hrun : (replayBlock (.counting fun _ => KECCAK256_EMPTY) (fun _ => KECCAK256_EMPTY) .sorted
      .empty cancunBlock ethereumMainnet).result
      = .error (.evm 19426587 0 false (.header "not set") (some 0xA) (some 0xB) none) := by decide
  exact ⟨cancunBlock_complete, hrun,
    fun h => h.replay counting_headerRules _ _ _ rfl _ _ _ _ _ _ hrun⟩

theorem envValid_iff_cancunBlock :
    (EnvValid polygonMainnet cancunBlock.header ↔ cancunBlock.header.number < 54876000)
      ∧ (EnvValid ethereumMainnet cancunBlock.header
        ↔ cancunBlock.header.timestamp.getD 0 < 1710338135) :=
  envValid_iff cancunBlock_complete

end EvmState
