import EvmState.Replayer.Block

/-!
# The replay pipeline

`run_pipeline` consumes a stream of blocks and replays them one after another. It
reads the head once, skips what is at or below it, and from the second block it
replays on insists that each block follows the last one.

A call ends when the stream does, with the first error, or when the callback asks
for it. Besides its result a run records the blocks it committed.
-/

namespace EvmState

/-- `PipelineStats`, without the time. -/
structure PipelineStats where
  blocksProcessed : Nat := 0
  firstBlock : Option U64 := none
  lastBlock : Option U64 := none
deriving DecidableEq, Repr

/-- `BlockProgress`, without the times. -/
structure BlockProgress where
  blockNumber : U64
  txCount : Nat
  blocksProcessed : Nat
deriving DecidableEq, Repr

/-- One call: its stream, its callback, its mode, and how its hash maps are walked. -/
structure PipelineCall where
  blocks : List (Except String Block)
  /-- Asked with everything reported so far, the newest report last. -/
  onProgress : List BlockProgress → Bool := fun _ => true
  spec : ChainSpec
  order : Nat → HashOrder := fun _ => .sorted

/-- What the loop carries from block to block. -/
structure PipelineState where
  db : StateDb
  stats : PipelineStats
  progress : List BlockProgress

/-- What a call leaves: the database, the blocks it committed, and its result. -/
structure PipelineRun where
  db : StateDb
  committed : List U64
  result : Except ReplayError PipelineStats

/-- The state after a block was replayed. -/
def PipelineState.next (st : PipelineState) (block : Block) (db : StateDb) : PipelineState :=
  let processed := st.stats.blocksProcessed + 1
  { db := db
    stats :=
      { blocksProcessed := processed
        firstBlock := st.stats.firstBlock.or (some block.header.number)
        lastBlock := some block.header.number }
    progress := st.progress ++ [⟨block.header.number, block.transactions.length, processed⟩] }

section Pipeline

variable (evm : Evm) (keccak256 : Bytes → B256)

/-- The loop over the stream; `head` is the head at the start of the call. -/
def pipelineLoop (call : PipelineCall) (head : Option U64) :
    List (Except String Block) → PipelineState → PipelineRun
  | [], st => ⟨st.db, [], .ok st.stats⟩
  | .error e :: _, st => ⟨st.db, [], .error (.source e)⟩
  | .ok block :: blocks, st =>
      -- skip blocks already processed
      if head.any (fun h => decide (block.header.number ≤ h)) then
        pipelineLoop call head blocks st
      else
        -- the first block of a call has no last one to be compared with
        match st.stats.lastBlock.filter (fun last => block.header.number != last + 1) with
        | some last =>
            ⟨st.db, [], .error (.source
              s!"block gap: expected {(last + 1).toNat} but got {block.header.number.toNat}")⟩
        | none =>
            let r := replayBlock evm keccak256 (call.order st.stats.blocksProcessed) st.db block
              call.spec
            match r.result with
            | .error err => ⟨r.db st.db, [], .error err⟩
            | .ok _ =>
                -- the block is durable by the time the callback is asked
                let st' := st.next block (r.db st.db)
                let run :=
                  if call.onProgress st'.progress then pipelineLoop call head blocks st'
                  else ⟨st'.db, [], .ok st'.stats⟩
                { run with committed := block.header.number :: run.committed }

/-- `run_pipeline`. -/
def runPipeline (db : StateDb) (call : PipelineCall) : PipelineRun :=
  match db.getHeadBlock with
  | .error e => ⟨db, [], .error (.db e)⟩
  | .ok head => pipelineLoop evm keccak256 call head call.blocks ⟨db, {}, []⟩

/-- The database after each commit of the loop, for a process that may stop at any of them. -/
def pipelineCommits (call : PipelineCall) (head : Option U64) :
    List (Except String Block) → PipelineState → List StateDb
  | [], _ => []
  | .error _ :: _, _ => []
  | .ok block :: blocks, st =>
      if head.any (fun h => decide (block.header.number ≤ h)) then
        pipelineCommits call head blocks st
      else if (st.stats.lastBlock.filter (fun last => block.header.number != last + 1)).isSome then []
      else
        let r := replayBlock evm keccak256 (call.order st.stats.blocksProcessed) st.db block call.spec
        let st' := st.next block (r.db st.db)
        r.commits
          ++ if r.result.isOk && call.onProgress st'.progress then
              pipelineCommits call head blocks st'
            else []

/-- Every state of the database during a call and after it. -/
def pipelineStates (db : StateDb) (call : PipelineCall) : List StateDb :=
  db :: match db.getHeadBlock with
    | .error _ => []
    | .ok head => pipelineCommits evm keccak256 call head call.blocks ⟨db, {}, []⟩

/-- A sequence of calls on one database, and the blocks they committed. -/
def runCalls : StateDb → List PipelineCall → StateDb × List U64
  | db, [] => (db, [])
  | db, call :: calls =>
      let run := runPipeline evm keccak256 db call
      let rest := runCalls run.db calls
      (rest.1, run.committed ++ rest.2)

end Pipeline

/-- Where the replay command has its stream start. -/
def startBlock (fromBlock head : Option U64) : U64 :=
  (fromBlock.or (head.map (· + 1))).getD 0

end EvmState
