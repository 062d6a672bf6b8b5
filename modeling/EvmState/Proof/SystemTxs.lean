import EvmState.Proof.Alike
import EvmState.Proof.Hybrid

/-!
# System transactions of blocks with diffs

In a block with diffs a system transaction is not executed: it has a place in the results
and that is all. A call whose blocks have these transactions taken out first goes through
the same databases, commits the same blocks and comes to the same end; only the counts
that the callback is told, and the place an error names, are others
(`pipelineStates_withoutSystem`).
-/

namespace EvmState

/-- The block with the transactions that are executed. -/
def Block.withoutSystem (block : Block) : Block :=
  if block.stateDiffs.isEmpty then block
  else { block with transactions := block.transactions.filter fun tx => !isSystemTx tx }

/-- The results of the transactions that are executed. -/
def executedResults (txs : List Transaction) (rs : List TxResult) : List TxResult :=
  ((txs.zip rs).filter fun e => !isSystemTx e.1).map Prod.snd

/-- What `withoutSystem` leaves of the results of a block. -/
def Block.executedOnly (block : Block) (res : BlockResult) : BlockResult :=
  if block.stateDiffs.isEmpty then res
  else { res with txResults := executedResults block.transactions res.txResults }

/-- An error without the place of its transaction. -/
def ReplayError.unplaced : ReplayError → ReplayError
  | .evm n _ isSystem reason fromAddr toAddr hash => .evm n 0 isSystem reason fromAddr toAddr hash
  | e => e

/-- A report without its count. -/
def BlockProgress.uncounted (p : BlockProgress) : BlockProgress := { p with txCount := 0 }

/-- The call over the blocks without their system transactions. -/
def PipelineCall.withoutSystem (call : PipelineCall) : PipelineCall :=
  { call with blocks := call.blocks.map (Except.map Block.withoutSystem) }

@[simp] theorem Block.withoutSystem_header (block : Block) :
    block.withoutSystem.header = block.header := by
  rw [withoutSystem, apply_ite Block.header, ite_self]

/-- Two results that are the same but for what `u` forgets of an error. -/
theorem mapError_eq_map_iff {ε ε' α β : Type} {u : ε → ε'} {f : α → β} {x : Except ε β}
    {y : Except ε α} :
    x.mapError u = (y.map f).mapError u
      ↔ (∃ v, y = .ok v ∧ x = .ok (f v)) ∨ ∃ e e', y = .error e ∧ x = .error e' ∧ u e' = u e := by
  cases x <;> cases y <;> simp [Except.mapError, Except.map]

/-! ## One block -/

section Block

variable {evm : Evm} {keccak256 : Bytes → B256} {σ : HashOrder} {db : StateDb} {spec : ChainSpec}
  {block : Block}

/-- The place of a transaction is for its error alone. -/
theorem executeTx_unplaced (tx : Transaction) (c : Cache) (idx idx' : Nat) :
    (executeTx evm db spec block idx' tx c).mapError ReplayError.unplaced
      = ((executeTx evm db spec block idx tx c).map id).mapError ReplayError.unplaced := by
  unfold executeTx
  split
  · rfl
  · cases evm.run db (replayExecution evm spec block tx) c <;> rfl

/-- An execution does not look at the other transactions. -/
theorem executeTxs_transactions (all txs : List Transaction) (idx : Nat) (c : Cache) :
    executeTxs evm db spec { block with transactions := all } idx txs c
      = executeTxs evm db spec block idx txs c := by
  induction txs generalizing idx c with
  | nil => rfl
  | cons tx txs ih =>
      have hone : executeTx evm db spec { block with transactions := all } idx tx c
          = executeTx evm db spec block idx tx c := rfl
      simp only [executeTxs, hone, ih]

variable (evm db spec) in
/-- **What is left out was skipped**: the others are executed as they were. -/
theorem executeTxs_withoutSystem (hne : block.stateDiffs.isEmpty = false) (txs : List Transaction)
    (idx idx' : Nat) (c : Cache) :
    (executeTxs evm db spec block idx' (txs.filter fun tx => !isSystemTx tx) c).mapError
        ReplayError.unplaced
      = ((executeTxs evm db spec block idx txs c).map
          fun r => (executedResults txs r.1, r.2)).mapError ReplayError.unplaced := by
  induction txs generalizing idx idx' c with
  | nil => rfl
  | cons tx txs ih =>
      cases hsys : isSystemTx tx with
      | true =>
          -- beside diffs a system transaction answers a result and leaves the overlay as it is
          have hskip : executeTx evm db spec block idx tx c = .ok (⟨0, true⟩, c) := by
            rw [executeTx, hsys, hne]
            rfl
          rw [List.filter_cons_of_neg (by simp [hsys]), executeTxs, hskip]
          rcases mapError_eq_map_iff.mp (ih (idx + 1) idx' c)
            with ⟨rs, hrun, hrun'⟩ | ⟨e, e', hrun, hrun', he⟩
          · simp [hrun, hrun', Except.map, Except.mapError, executedResults, hsys]
          · simp [hrun, hrun', he, Except.map, Except.mapError]
      | false =>
          rw [List.filter_cons_of_pos (by simp [hsys]), executeTxs, executeTxs]
          -- the index is only in the error, and `unplaced` forgets it
          rcases mapError_eq_map_iff.mp (executeTx_unplaced tx c idx idx')
            with ⟨r, hone, hone'⟩ | ⟨e, e', hone, hone', he⟩
          · rw [hone, hone']
            rcases mapError_eq_map_iff.mp (ih (idx + 1) (idx' + 1) r.2)
              with ⟨rs, hrun, hrun'⟩ | ⟨e, e', hrun, hrun', he⟩
            · simp [hrun, hrun', Except.map, Except.mapError, executedResults, hsys]
            · simp [hrun, hrun', he, Except.map, Except.mapError]
          · simp [hone, hone', he, Except.map, Except.mapError]

variable (evm keccak256 σ db spec block) in
/-- **One block without its system transactions** makes the same commits. -/
theorem replayBlock_withoutSystem :
    (replayBlock evm keccak256 σ db block.withoutSystem spec).commits
        = (replayBlock evm keccak256 σ db block spec).commits
      ∧ (replayBlock evm keccak256 σ db block.withoutSystem spec).result.mapError
            ReplayError.unplaced
          = ((replayBlock evm keccak256 σ db block spec).result.map block.executedOnly).mapError
            ReplayError.unplaced := by
  cases hempty : block.stateDiffs.isEmpty with
  | true =>
      rw [Block.withoutSystem, if_pos hempty]
      refine ⟨rfl, ?_⟩
      cases (replayBlock evm keccak256 σ db block spec).result with
      | ok res => rw [Except.map, Block.executedOnly, if_pos hempty]
      | error e => rfl
  | false =>
      rw [Block.withoutSystem, if_neg (by simp [hempty]), replayBlock, replayBlock,
        executeTxs_transactions]
      rcases mapError_eq_map_iff.mp (executeTxs_withoutSystem evm db spec hempty
          block.transactions 0 0 .new) with ⟨r, hrun, hrun'⟩ | ⟨e, e', hrun, hrun', he⟩
      · rw [hrun, hrun']
        dsimp only
        rw [if_neg (by simp [hempty]), if_neg (by simp [hempty])]
        -- the diffs are applied without a look at the transactions
        have hdiffs : applyStateDiffs keccak256 σ (flushCacheToDb σ db r.2 none)
            { block with transactions := block.transactions.filter fun tx => !isSystemTx tx }
              = applyStateDiffs keccak256 σ (flushCacheToDb σ db r.2 none) block := rfl
        rw [hdiffs]
        cases applyStateDiffs keccak256 σ (flushCacheToDb σ db r.2 none) block with
        | ok db₂ =>
            refine ⟨rfl, ?_⟩
            dsimp only
            rw [Except.map, Block.executedOnly, if_neg (by simp [hempty])]
        | error e => exact ⟨rfl, rfl⟩
      · rw [hrun, hrun']
        exact ⟨rfl, congrArg Except.error he⟩

end Block

/-! ## A whole call -/

section Call

variable {evm : Evm} {keccak256 : Bytes → B256} {call : PipelineCall}

/-- A callback that does not look at the counts of transactions. -/
def PipelineCall.CountsIgnored (call : PipelineCall) : Prop :=
  ∀ l, call.onProgress (l.map BlockProgress.uncounted) = call.onProgress l

theorem PipelineCall.CountsIgnored.asksAlike (h : call.CountsIgnored) :
    AsksAlike BlockProgress.uncounted call call.withoutSystem := by
  intro l l' hsame
  calc call.onProgress l' = call.onProgress (l'.map BlockProgress.uncounted) := (h l').symm
    _ = call.onProgress (l.map BlockProgress.uncounted) := by rw [hsame]
    _ = call.onProgress l := h l

theorem replayedAs_withoutSystem (block : Block) :
    ReplayedAs evm keccak256 BlockProgress.uncounted ReplayError.unplaced call call.withoutSystem
      block block.withoutSystem where
  number := by rw [Block.withoutSystem_header]
  reported _ := rfl
  commits i db := (replayBlock_withoutSystem evm keccak256 (call.order i) db call.spec block).1
  ends i db := by
    have hresult := (replayBlock_withoutSystem evm keccak256 (call.order i) db call.spec block).2
    rcases mapError_eq_map_iff.mp hresult with ⟨res, hres, hres'⟩ | ⟨e, e', hres, hres', he⟩
    · exact hres ▸ hres' ▸ .ok _ _
    · exact hres ▸ hres' ▸ .error he

theorem deliveredAs_withoutSystem (blocks : List (Except String Block)) :
    List.Forall₂ (DeliveredAs evm keccak256 BlockProgress.uncounted ReplayError.unplaced call
      call.withoutSystem) blocks (blocks.map (Except.map Block.withoutSystem)) := by
  refine List.forall₂_map_right_iff.mpr (List.forall₂_same.mpr fun item _ => ?_)
  cases item with
  | error e => exact .error e
  | ok block => exact .ok (replayedAs_withoutSystem block)

/--
**System transactions of blocks with diffs play no part**: taken out first, they leave every
state of the database, the blocks that are committed and the end of the call as they are.
-/
theorem pipelineStates_withoutSystem (evm : Evm) (keccak256 : Bytes → B256) (db : StateDb)
    {call : PipelineCall} (hcall : call.CountsIgnored) :
    pipelineStates evm keccak256 db call.withoutSystem = pipelineStates evm keccak256 db call
      ∧ (runPipeline evm keccak256 db call).Alike ReplayError.unplaced
        (runPipeline evm keccak256 db call.withoutSystem) :=
  pipelineStates_alike hcall.asksAlike (deliveredAs_withoutSystem call.blocks) db

end Call

/-- A transaction of the consensus layer in front of the sender's, with the diffs for both. -/
def systemCall : PipelineCall where
  blocks :=
    [.ok
      { hybridBlock with
        transactions :=
          { fromAddr := some 0, toAddr := some 0xC, gas := some 0 } :: hybridBlock.transactions }]
  spec := polygonMainnet

theorem pipelineStates_withoutSystem_systemCall :
    let evm := Evm.counting fun _ => KECCAK256_EMPTY
    systemCall.withoutSystem ≠ systemCall
      ∧ pipelineStates evm (fun _ => KECCAK256_EMPTY) senderDb systemCall.withoutSystem
        = pipelineStates evm (fun _ => KECCAK256_EMPTY) senderDb systemCall
      ∧ (runPipeline evm (fun _ => KECCAK256_EMPTY) senderDb systemCall).Alike ReplayError.unplaced
        (runPipeline evm (fun _ => KECCAK256_EMPTY) senderDb systemCall.withoutSystem) := by
  intro evm
  refine ⟨?_, pipelineStates_withoutSystem evm _ senderDb fun _ => rfl⟩
  -- the block loses its only transaction
  intro heq
  have hblocks : systemCall.withoutSystem.blocks.map (Except.map fun b => b.transactions.length)
      = systemCall.blocks.map (Except.map fun b => b.transactions.length) := by rw [heq]
  exact absurd hblocks (by decide)

end EvmState
