import EvmState.Fetcher.Query
import EvmState.Replayer.Pipeline

/-!
# The replay command

`run_replay` puts the parts together: the options decide on the portal and the dataset,
the chain on the hardforks and on whether state diffs are asked for, and the head of the
database on where the stream starts. The blocks of the stream then go through the
pipeline, whose callback reports progress and never stops it. The reports, and the
request for the portal's head that they need, are left out.
-/

namespace EvmState

/-- The options a command line and a configuration file have in common. -/
structure Options where
  dbPath : Option String := none
  chainId : Option U64 := none
  logLevel : Option String := none
  portal : Option String := none
  dataset : Option String := none

/-- `Resolved`. -/
structure Resolved where
  dbPath : String
  chainId : U64
  logLevel : String
deriving DecidableEq, Repr

/-- `Resolved::from_cli_and_config`. -/
def Resolved.fromCliAndConfig (cli config : Options) : Resolved where
  dbPath := (cli.dbPath.or config.dbPath).getD "./state.rocksdb"
  chainId := (cli.chainId.or config.chainId).getD 137
  logLevel := (cli.logLevel.or config.logLevel).getD "info"

/-- The options of the `replay` command that decide what it does. -/
structure ReplayArgs where
  fromBlock : Option U64 := none
  toBlock : Option U64 := none
deriving DecidableEq, Repr

inductive CommandError where
  /-- `no default SQD dataset for chain ID {chain_id}; use --dataset` -/
  | noDataset (chainId : U64)
  /-- `unsupported chain ID: {chain_id}` -/
  | unsupportedChain (chainId : U64)
  | db (e : DbError)
  | replay (e : ReplayError)
deriving DecidableEq, Repr

def datasetForChain (chainId : U64) : Except CommandError String :=
  if chainId = 1 then .ok ETHEREUM_DATASET
  else if chainId = 137 then .ok POLYGON_DATASET
  else .error (.noDataset chainId)

/-- The dataset that is named, or the chain's own. -/
def datasetName (cli config : Options) (chainId : U64) : Except CommandError String :=
  match cli.dataset.or config.dataset with
  | some name => .ok name
  | none => datasetForChain chainId

def portalUrl (cli config : Options) : String := (cli.portal.or config.portal).getD DEFAULT_PORTAL

/--
One invocation: what it is given, what its requests meet, and how its hash maps are
walked. `fuel` bounds the requests of its stream.
-/
structure Command where
  cli : Options := {}
  config : Options := {}
  args : ReplayArgs := {}
  network : Network
  fuel : Nat
  order : Nat → HashOrder := fun _ => .sorted

/-- What an invocation has settled before its first request. -/
structure ReplayPlan where
  spec : ChainSpec
  fetcher : SqdFetcher
  fromBlock : U64

/-- `run_replay` up to the stream. -/
def Command.plan (c : Command) (db : StateDb) : Except CommandError ReplayPlan :=
  let resolved := Resolved.fromCliAndConfig c.cli c.config
  match datasetName c.cli c.config resolved.chainId with
  | .error e => .error e
  | .ok dataset =>
      match fromChainId resolved.chainId with
      | none => .error (.unsupportedChain resolved.chainId)
      | some spec =>
          match db.getHeadBlock with
          | .error e => .error (.db e)
          | .ok head =>
              .ok
                { spec := spec
                  fetcher := (SqdFetcher.new (portalUrl c.cli c.config) dataset).withStateDiffs
                    spec.requiresStateDiffs
                  fromBlock := startBlock c.args.fromBlock head }

/-- What an invocation leaves: the database, the blocks it committed, and its result. -/
structure CommandRun where
  db : StateDb
  committed : List U64
  result : Except CommandError PipelineStats

section Run

variable (evm : Evm) (keccak256 : Bytes → B256) (fromStr : String → Option Block)
  (display : FetchError → String)

/-- The call of `run_pipeline` a plan leads to, if its stream ends; `display` writes errors out. -/
def Command.call (c : Command) (plan : ReplayPlan) : Option PipelineCall :=
  (streamBlocks fromStr (plan.fetcher.portal c.network) c.fuel plan.fromBlock c.args.toBlock).map
    fun items =>
      { blocks := items.map (Except.mapError display), spec := plan.spec, order := c.order }

/-- `run_replay`, if its stream ends. -/
def runReplay (c : Command) (db : StateDb) : Option CommandRun :=
  match c.plan db with
  | .error e => some ⟨db, [], .error e⟩
  | .ok plan =>
      (c.call fromStr display plan).map fun call =>
        let run := runPipeline evm keccak256 db call
        ⟨run.db, run.committed, run.result.mapError .replay⟩

end Run

end EvmState
