import EvmState.Proof.Gaps
import EvmState.Proof.Slice

/-!
# The configuration of a prefetch and that of the head block

Both look up the fork in the same schedule. The replay does it with the number and
the timestamp of the block; the server knows the number alone and puts zero for the
time, so no fork that is activated by time after zero is ever in force for it. The
chain id it leaves at revm's default. `prefetchCfg_agrees_iff` says when that makes
no difference.
-/

namespace EvmState

/-! ## The last activation in force decides -/

/-- Entries behind the last one in force play no part. -/
theorem specAt_append {c : ChainSpec} {pre post : List HardforkActivation}
    {hf : HardforkActivation} (hc : c.hardforks = pre ++ hf :: post) {n t : U64}
    (hpost : ∀ x ∈ post, x.condition.active n t = false) :
    c.specAt n t
      = if hf.condition.active n t then hf.specId
        else { c with hardforks := pre }.specAt n t := by
  have hskip : post.reverse.find? (fun x => x.condition.active n t) = none := by
    refine List.find?_eq_none.mpr fun x hx => ?_
    simp [hpost x (List.mem_reverse.mp hx)]
  rw [ChainSpec.specAt, ChainSpec.specAt, hc, List.reverse_append, List.reverse_cons,
    List.append_assoc, List.singleton_append, List.find?_append, hskip, Option.none_or,
    List.find?_cons]
  cases hf.condition.active n t <;> rfl

/-- Either nothing of a schedule is in force, or there is a last entry that is. -/
theorem exists_last_active (l : List HardforkActivation) (n t : U64) :
    (∀ x ∈ l, x.condition.active n t = false)
      ∨ ∃ pre hf post, l = pre ++ hf :: post ∧ hf.condition.active n t = true
        ∧ ∀ x ∈ post, x.condition.active n t = false := by
  induction l with
  | nil => exact .inl fun x hx => by cases hx
  | cons hf l ih =>
      rcases ih with hnone | ⟨pre, hf', post, rfl, hact, hpost⟩
      · by_cases h : hf.condition.active n t = true
        · exact .inr ⟨[], hf, l, rfl, h, hnone⟩
        · refine .inl fun x hx => ?_
          rcases List.mem_cons.mp hx with rfl | hx
          · exact Bool.not_eq_true _ ▸ h
          · exact hnone x hx
      · exact .inr ⟨hf :: pre, hf', post, rfl, hact, hpost⟩

theorem specAt_of_none {c : ChainSpec} {n t : U64}
    (h : ∀ x ∈ c.hardforks, x.condition.active n t = false) : c.specAt n t = .FRONTIER := by
  have : c.hardforks.reverse.find? (fun x => x.condition.active n t) = none := by
    refine List.find?_eq_none.mpr fun x hx => ?_
    simp [h x (List.mem_reverse.mp hx)]
  rw [ChainSpec.specAt, this]

/--
The fork that the time `t` brings with it at block `n`, if one does: the last entry
in force is a timestamp above zero.
-/
def ChainSpec.TimedFork (c : ChainSpec) (n t : U64) (pre : List HardforkActivation)
    (s : SpecId) : Prop :=
  ∃ T post, c.hardforks = pre ++ ⟨.timestamp T, s⟩ :: post ∧ 0 < T ∧ T ≤ t
    ∧ ∀ x ∈ post, x.condition.active n t = false

/-- **Time plays no part** unless it decides, and the schedule before says otherwise. -/
theorem specAt_zero_iff (c : ChainSpec) (n t : U64) :
    c.specAt n 0 = c.specAt n t
      ↔ ∀ pre s, c.TimedFork n t pre s → { c with hardforks := pre }.specAt n 0 = s := by
  have hzero : ∀ {post : List HardforkActivation},
      (∀ x ∈ post, x.condition.active n t = false) →
      ∀ x ∈ post, x.condition.active n 0 = false := by
    intro post hpost x hx
    by_contra h
    have h0 : (0 : U64) ≤ t := Nat.zero_le t.toNat
    have := HardforkCondition.active_mono (Nat.le_refl n.toNat) h0 (Bool.eq_true_of_not_eq_false h)
    rw [hpost x hx] at this
    cases this
  -- where time decides, the two lookups part at the entry that brings the fork
  have htimed : ∀ {pre s}, c.TimedFork n t pre s →
      c.specAt n t = s ∧ c.specAt n 0 = { c with hardforks := pre }.specAt n 0 := by
    intro pre s h
    obtain ⟨T, post, hc, hpos, hle, hpost⟩ := h
    rw [specAt_append hc hpost, specAt_append hc (hzero hpost)]
    have hne : ¬ T ≤ 0 := BitVec.not_le.mpr hpos
    simp only [HardforkCondition.active, hle, hne, decide_true, decide_false, if_true,
      Bool.false_eq_true, if_false, and_self]
  constructor
  · intro heq pre s h
    obtain ⟨h1, h2⟩ := htimed h
    rw [← h2, heq, h1]
  · intro hall
    rcases exists_last_active c.hardforks n t with hnone | ⟨pre, hf, post, hc, hact, hpost⟩
    · rw [specAt_of_none hnone, specAt_of_none (hzero hnone)]
    · by_cases h0 : hf.condition.active n 0 = true
      · rw [specAt_append hc hpost, specAt_append hc (hzero hpost), if_pos hact, if_pos h0]
      · obtain ⟨cond, s⟩ := hf
        cases cond with
        | block b => exact absurd hact h0
        | timestamp T =>
            simp only [HardforkCondition.active, decide_eq_true_eq] at hact h0
            have h : c.TimedFork n t pre s :=
              ⟨T, post, hc, BitVec.not_le.mp h0, hact, hpost⟩
            obtain ⟨h1, h2⟩ := htimed h
            rw [h1, h2, hall pre s h]

/-! ## The two configurations -/

/--
**When a prefetch runs under the head block's rules.** After a block was replayed,
the server's configuration has the fork and the chain id the replay had exactly when
the chain's id is 1 and, where a timestamp brought the block's fork, the schedule
before that entry gives the same fork without looking at the time.
-/
theorem prefetchCfg_agrees_iff {evm : Evm} {keccak256 : Bytes → B256} {σ : HashOrder}
    {db : StateDb} {block : Block} {spec : ChainSpec} {res : BlockResult}
    (h : (replayBlock evm keccak256 σ db block spec).result = .ok res) :
    let head := ((replayBlock evm keccak256 σ db block spec).db db).headOrZero
    ((prefetchCfg spec head).spec = (replayCfg spec block).spec
        ∧ (prefetchCfg spec head).chainId = (replayCfg spec block).chainId)
      ↔ spec.chainId = 1
        ∧ ∀ pre s, spec.TimedFork block.header.number (block.header.timestamp.getD 0) pre s →
            { spec with hardforks := pre }.specAt block.header.number 0 = s := by
  intro head
  have hhead : head = block.header.number := by
    simp only [head, StateDb.headOrZero, getHeadBlock_replayBlock_ok h, Option.getD_some]
  rw [hhead, ← specAt_zero_iff]
  constructor
  · intro hx
    obtain ⟨hs, hid⟩ := hx
    exact ⟨hid.symm, hs⟩
  · intro hx
    obtain ⟨hid, hs⟩ := hx
    exact ⟨hs, hid.symm⟩

/-- Ethereum's first Shanghai block, without transactions. -/
def shanghaiBlock : Block where
  header := { number := 17034870, timestamp := some 1681338455 }

/-- The block is replayed under SHANGHAI, and prefetches at it run under MERGE. -/
theorem prefetchCfg_lags :
    let replay := replayBlock (.counting fun _ => KECCAK256_EMPTY) (fun _ => KECCAK256_EMPTY)
      .sorted .empty shanghaiBlock ethereumMainnet
    let head := (replay.db .empty).headOrZero
    replay.result = .ok ⟨17034870, []⟩
      ∧ (replayCfg ethereumMainnet shanghaiBlock).spec = .SHANGHAI
      ∧ (prefetchCfg ethereumMainnet head).spec = .MERGE
      ∧ ¬ ((prefetchCfg ethereumMainnet head).spec
          = (replayCfg ethereumMainnet shanghaiBlock).spec
        ∧ (prefetchCfg ethereumMainnet head).chainId
          = (replayCfg ethereumMainnet shanghaiBlock).chainId) := by
  decide

theorem prefetchCfg_agrees_iff_shanghaiBlock :
    let replay := replayBlock (.counting fun _ => KECCAK256_EMPTY) (fun _ => KECCAK256_EMPTY)
      .sorted .empty shanghaiBlock ethereumMainnet
    let head := (replay.db .empty).headOrZero
    ((prefetchCfg ethereumMainnet head).spec = (replayCfg ethereumMainnet shanghaiBlock).spec
        ∧ (prefetchCfg ethereumMainnet head).chainId
          = (replayCfg ethereumMainnet shanghaiBlock).chainId)
      ↔ ethereumMainnet.chainId = 1
        ∧ ∀ pre s, ethereumMainnet.TimedFork 17034870 1681338455 pre s →
            { ethereumMainnet with hardforks := pre }.specAt 17034870 0 = s := by
  have hok : (replayBlock (.counting fun _ => KECCAK256_EMPTY) (fun _ => KECCAK256_EMPTY)
      .sorted .empty shanghaiBlock ethereumMainnet).result = .ok ⟨17034870, []⟩ := by decide
  exact prefetchCfg_agrees_iff hok

end EvmState
