import EvmState.Replayer.Pipeline

/-!
# The pipeline over any replay

`run_pipeline` hands blocks to `replay_block` and looks at nothing but whether that
succeeded. Here it runs over a `ReplayStep`, a replay of which only this is known: it
either fails and leaves the head alone, or commits and makes the block the head. What
happens on the way is recorded, so that the order of replays and reports can be told.
-/

namespace EvmState

/-- A head and a way to replay a block on it; `replay` may depend on the blocks before it. -/
structure ReplayStep (δ : Type) where
  head : δ → Except DbError (Option U64)
  replay : Nat → δ → Block → δ × Except ReplayError Unit
  /-- A block that was replayed is the head. -/
  head_of_ok : ∀ k db block db', replay k db block = (db', .ok ()) →
    head db' = .ok (some block.header.number)
  /-- One that failed is not. -/
  head_of_error : ∀ k db block db' err, replay k db block = (db', .error err) → head db' = head db

/-- What can be seen of a run from outside. -/
inductive PipelineEvent where
  /-- `replay_block` returned, and the block is committed. -/
  | replayed (block : Block)
  /-- `replay_block` failed. -/
  | failed (block : Block) (err : ReplayError)
  /-- `on_progress` was called. -/
  | progress (p : BlockProgress)

/-- What the loop carries from block to block. -/
structure LoopState (δ : Type) where
  db : δ
  stats : PipelineStats
  progress : List BlockProgress

/-- What a run leaves: the database, its events, and its result. -/
structure LoopRun (δ : Type) where
  db : δ
  events : List PipelineEvent
  result : Except ReplayError PipelineStats

/-- `stats` after a block was replayed. -/
def PipelineStats.next (stats : PipelineStats) (block : Block) : PipelineStats where
  blocksProcessed := stats.blocksProcessed + 1
  firstBlock := stats.firstBlock.or (some block.header.number)
  lastBlock := some block.header.number

/-- The report on a block, with the statistics it is in. -/
def BlockProgress.ofBlock (stats : PipelineStats) (block : Block) : BlockProgress :=
  ⟨block.header.number, block.transactions.length, stats.blocksProcessed⟩

/-- `block gap: expected {last + 1} but got {number}`. -/
def gapError (last number : U64) : ReplayError :=
  .source s!"block gap: expected {(last + 1).toNat} but got {number.toNat}"

namespace ReplayStep

variable {δ : Type} (step : ReplayStep δ) (onProgress : List BlockProgress → Bool)

/-- The loop of `run_pipeline`; `head` is the head at the start of the call. -/
def loop (head : Option U64) : List (Except String Block) → LoopState δ → LoopRun δ
  | [], st => ⟨st.db, [], .ok st.stats⟩
  | .error e :: _, st => ⟨st.db, [], .error (.source e)⟩
  | .ok block :: blocks, st =>
      if head.any (fun h => decide (block.header.number ≤ h)) then loop head blocks st
      else
        match st.stats.lastBlock.filter (fun last => block.header.number != last + 1) with
        | some last => ⟨st.db, [], .error (gapError last block.header.number)⟩
        | none =>
            match step.replay st.stats.blocksProcessed st.db block with
            | (db, .error err) => ⟨db, [.failed block err], .error err⟩
            | (db, .ok ()) =>
                let stats := st.stats.next block
                let p := BlockProgress.ofBlock stats block
                let st' : LoopState δ := ⟨db, stats, st.progress ++ [p]⟩
                let run :=
                  if onProgress st'.progress then loop head blocks st'
                  else ⟨db, [], .ok stats⟩
                { run with events := .replayed block :: .progress p :: run.events }

/-- `run_pipeline`. -/
def run (db : δ) (blocks : List (Except String Block)) : LoopRun δ :=
  match step.head db with
  | .error e => ⟨db, [], .error (.db e)⟩
  | .ok head => step.loop onProgress head blocks ⟨db, {}, []⟩

end ReplayStep

end EvmState
