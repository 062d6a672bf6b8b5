import EvmState.Proof.Alike
import EvmState.Proof.Order

/-!
# Replicas

Two processes that replay the same chain each walk their hash maps in orders of their own,
and the portal may interleave the diffs of a block in another way for each of them. Their
databases are the same nevertheless, after each commit (`pipelineStates_replicas`).
-/

namespace EvmState

/-- An error, but of the database: which record is found broken first is a matter of order. -/
def ReplayError.reported : ReplayError → Option ReplayError
  | .db _ => none
  | e => some e

/-- One delivery of a block and another: the diffs of an address are in their order in both. -/
inductive SameDelivery (keccak256 : Bytes → B256) : Except String Block → Except String Block → Prop
  | error (e : String) : SameDelivery keccak256 (.error e) (.error e)
  | ok {b : Block} {diffs : List StateDiff} : NoCollision keccak256 b →
      SameGroups b.stateDiffs diffs → (diffs = [] ↔ b.stateDiffs = []) →
      SameDelivery keccak256 (.ok b) (.ok { b with stateDiffs := diffs })

section Replicas

variable {evm : Evm} {keccak256 : Bytes → B256} {db : StateDb} {spec : ChainSpec} {block : Block}
  {diffs : List StateDiff}

/-- Whether there are diffs matters to an execution, not which. -/
theorem executeTxs_stateDiffs (hempty : diffs.isEmpty = block.stateDiffs.isEmpty)
    (txs : List Transaction) (idx : Nat) (c : Cache) :
    executeTxs evm db spec { block with stateDiffs := diffs } idx txs c
      = executeTxs evm db spec block idx txs c := by
  induction txs generalizing idx c with
  | nil => rfl
  | cons tx txs ih =>
      -- a transaction looks at the diffs only to see whether there are any
      have hone : executeTx evm db spec { block with stateDiffs := diffs } idx tx c
          = executeTx evm db spec block idx tx c := by
        simp only [executeTx, hempty]
        rfl
      simp only [executeTxs, hone, ih]

variable (db) in
/-- Applied in another order, the diffs leave the same, or fail as well. -/
theorem applyStateDiffs_redelivered (hnc : NoCollision keccak256 block)
    (hsame : SameGroups block.stateDiffs diffs) (σ σ' : HashOrder) :
    (∃ d, applyStateDiffs keccak256 σ db block = .ok d
        ∧ applyStateDiffs keccak256 σ' db { block with stateDiffs := diffs } = .ok d)
      ∨ ∃ e e', applyStateDiffs keccak256 σ db block = .error (.db e)
        ∧ applyStateDiffs keccak256 σ' db { block with stateDiffs := diffs } = .error (.db e') := by
  cases hb : diffBatch keccak256 σ db block with
  | ok b =>
      have happly : applyStateDiffs keccak256 σ db block = .ok (db.commit b) := by
        rw [applyStateDiffs, hb]
      refine .inl ⟨_, happly, applyStateDiffs_regroup ?_ hsame hnc happly⟩
      rfl
  | error e =>
      cases hb' : diffBatch keccak256 σ' db { block with stateDiffs := diffs } with
      | ok b' =>
          -- what can be read in one order can be read in any
          have hany : (∃ b, diffBatch keccak256 σ db block = .ok b)
              ↔ ∃ b, diffBatch keccak256 σ' db { block with stateDiffs := diffs } = .ok b :=
            diffBatch_ok_regroup hsame
          obtain ⟨b, hok⟩ := hany.mpr ⟨b', hb'⟩
          rw [hb] at hok
          cases hok
      | error e' => exact .inr ⟨e, e', by rw [applyStateDiffs, hb], by rw [applyStateDiffs, hb']⟩

/-- **One block, delivered in another way and walked in another order.** -/
theorem replayBlock_redelivered (hnc : NoCollision keccak256 block)
    (hsame : SameGroups block.stateDiffs diffs) (hempty : diffs = [] ↔ block.stateDiffs = [])
    (σ σ' : HashOrder) :
    (replayBlock evm keccak256 σ' db { block with stateDiffs := diffs } spec).commits
        = (replayBlock evm keccak256 σ db block spec).commits
      ∧ EndsAs ReplayError.reported (replayBlock evm keccak256 σ db block spec).result
        (replayBlock evm keccak256 σ' db { block with stateDiffs := diffs } spec).result := by
  have hflush : ∀ c n, flushCacheToDb σ' db c n = flushCacheToDb σ db c n :=
    fun c n => flushIn_eq σ (.all σ') db c n
  have hisEmpty : diffs.isEmpty = block.stateDiffs.isEmpty := by
    rw [Bool.eq_iff_iff, List.isEmpty_iff, List.isEmpty_iff, hempty]
  rw [replayBlock, replayBlock]
  simp only [executeTxs_stateDiffs hisEmpty, hflush, hisEmpty]
  cases executeTxs evm db spec block 0 block.transactions .new with
  | error err => exact ⟨rfl, .error rfl⟩
  | ok r =>
      dsimp only
      by_cases hplain : block.stateDiffs.isEmpty = true
      · rw [if_pos hplain, if_pos hplain]
        exact ⟨rfl, .ok _ _⟩
      · rw [if_neg hplain, if_neg hplain]
        -- the overlays are equal by now, so only the diffs are left to compare
        rcases applyStateDiffs_redelivered (flushCacheToDb σ db r.2 none) hnc hsame σ σ'
          with ⟨d, happly, happly'⟩ | ⟨e, e', happly, happly'⟩
        · rw [happly, happly']
          exact ⟨rfl, .ok _ _⟩
        · rw [happly, happly']
          exact ⟨rfl, .error rfl⟩

variable {call call' : PipelineCall}

theorem deliveredAs_of_same (hspec : call'.spec = call.spec) {item item' : Except String Block}
    (h : SameDelivery keccak256 item item') :
    DeliveredAs evm keccak256 id ReplayError.reported call call' item item' := by
  cases h with
  | error e => exact .error e
  | ok hnc hsame hempty =>
      refine .ok ⟨rfl, fun _ => rfl, fun i db => ?_, fun i db => ?_⟩
      · rw [hspec]
        exact (replayBlock_redelivered hnc hsame hempty _ _).1
      · rw [hspec]
        exact (replayBlock_redelivered hnc hsame hempty _ _).2

/--
**Replicas agree.** Two calls on one database with the same callback, over streams that
deliver the same blocks with the diffs of different addresses interleaved in any way, and
with any order of every hash map in each, go through the same states of the database, commit
the same blocks and end alike: byte for byte, as long as no two codes of a block's diffs
share a hash.
-/
theorem pipelineStates_replicas (evm : Evm) {keccak256 : Bytes → B256} {call call' : PipelineCall}
    (hspec : call'.spec = call.spec) (hasks : call'.onProgress = call.onProgress)
    (hblocks : List.Forall₂ (SameDelivery keccak256) call.blocks call'.blocks) (db : StateDb) :
    pipelineStates evm keccak256 db call' = pipelineStates evm keccak256 db call
      ∧ (runPipeline evm keccak256 db call).Alike ReplayError.reported
        (runPipeline evm keccak256 db call') := by
  refine pipelineStates_alike (f := id) (fun l l' hsame => ?_)
    (hblocks.imp fun _ _ => deliveredAs_of_same hspec) db
  rw [List.map_id, List.map_id] at hsame
  rw [hasks, hsame]

end Replicas

/-- Two contracts with one code, whose diffs come in either order. -/
def twinsCall (order : HashOrder) (diffs : List StateDiff) : PipelineCall where
  blocks := [.ok { twinsBlock with stateDiffs := diffs }]
  spec := polygonMainnet
  order := fun _ => order

theorem pipelineStates_replicas_twins :
    let evm := Evm.counting fun _ => KECCAK256_EMPTY
    let call := twinsCall .sorted [twinDiff 0xA, twinDiff 0xB, twinNonce]
    let call' := twinsCall .reversed [twinDiff 0xB, twinDiff 0xA, twinNonce]
    pipelineStates evm (ofBe 256) .empty call' = pipelineStates evm (ofBe 256) .empty call
      ∧ (runPipeline evm (ofBe 256) .empty call).Alike ReplayError.reported
        (runPipeline evm (ofBe 256) .empty call') := by
  intro evm call call'
  -- both diffs with code hold the same bytes
  have hnc : NoCollision (ofBe 256) twinsBlock := by
    intro d hd d' hd' raw raw' hraw hraw' _
    rw [code_of_twin hd hraw, code_of_twin hd' hraw']
  have hsame : SameGroups twinsBlock.stateDiffs [twinDiff 0xB, twinDiff 0xA, twinNonce] :=
    sameGroups_swap (by decide) [twinNonce]
  have hdelivered : SameDelivery (ofBe 256) (.ok twinsBlock)
      (.ok { twinsBlock with stateDiffs := [twinDiff 0xB, twinDiff 0xA, twinNonce] }) :=
    .ok hnc hsame (by simp [twinsBlock])
  have hblocks : List.Forall₂ (SameDelivery (ofBe 256)) call.blocks call'.blocks :=
    .cons hdelivered .nil
  have hspec : call'.spec = call.spec := rfl
  have hasks : call'.onProgress = call.onProgress := rfl
  exact pipelineStates_replicas evm hspec hasks hblocks .empty

end EvmState
