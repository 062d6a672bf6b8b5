import EvmState.Fetcher.Stream
import EvmState.Lib.Json
import Mathlib.Data.List.DropRight

/-!
# What the fetcher asks for

A request is a POST of a query to the stream URL of a dataset. The query names the range
and selects the fields of the answer; with state diffs it asks for those of system
transactions as well. `Network` is what such requests meet.
-/

namespace EvmState

open Json (Doc)

def DEFAULT_PORTAL : String := "https://portal.sqd.dev"

def POLYGON_DATASET : String := "polygon-mainnet"

def ETHEREUM_DATASET : String := "ethereum-mainnet"

/-! ## The query -/

/-- The fields of a block header that are asked for. -/
def blockFields : List String :=
  [ "number", "hash", "parentHash", "timestamp", "nonce", "miner", "difficulty", "gasLimit",
    "gasUsed", "baseFeePerGas", "extraData", "mixHash", "sha3Uncles", "stateRoot",
    "transactionsRoot", "receiptsRoot", "size" ]

/-- The fields of a transaction, in both modes. -/
def transactionFields : List String :=
  [ "transactionIndex", "hash", "from", "to", "input", "value", "nonce", "gas", "gasPrice",
    "maxFeePerGas", "maxPriorityFeePerGas", "yParity", "chainId", "gasUsed", "cumulativeGasUsed",
    "effectiveGasPrice", "contractAddress", "type", "status", "sighash" ]

def stateDiffFields : List String := ["address", "key", "kind", "next"]

/-- `{"name": true, …}`. -/
def selection (names : List String) : Doc := .object (names.map fun n => (n, .bool true))

/-- The state diffs of transactions sent from the zero address. -/
def systemTransactions : Doc :=
  .object
    [ ("from", .array [.str "0x0000000000000000000000000000000000000000"]),
      ("stateDiffs", .bool true) ]

/-- `build_query`. -/
def buildQuery (fromBlock : U64) (toBlock : Option U64) (stateDiffs : Bool) : Doc :=
  .object
    ([ ("type", .str "evm"),
       ("fromBlock", .num fromBlock.toNat),
       ("includeAllBlocks", .bool true),
       ("fields", .object
         ([ ("block", selection blockFields), ("transaction", selection transactionFields) ]
           ++ if stateDiffs then [("stateDiff", selection stateDiffFields)] else [])),
       ("transactions", .array (.object [] :: if stateDiffs then [systemTransactions] else [])) ]
      ++ (toBlock.map fun n => ("toBlock", Doc.num n.toNat)).toList)

/-- A query for the blocks of a range, all of them, with or without state diffs. -/
structure AsksFor (query : Doc) (stateDiffs : Bool) (fromBlock : U64) (toBlock : Option U64) :
    Prop where
  fromBlock : (query.get "fromBlock").bind Doc.asNum = some fromBlock.toNat
  toBlock : query.get "toBlock" = toBlock.map fun n => Doc.num n.toNat
  all : (query.get "includeAllBlocks").bind Doc.asBool = some true
  stateDiffs : ((query.get "fields").bind fun fields => fields.get "stateDiff").isSome = stateDiffs

theorem asksFor_buildQuery (fromBlock : U64) (toBlock : Option U64) (stateDiffs : Bool) :
    AsksFor (buildQuery fromBlock toBlock stateDiffs) stateDiffs fromBlock toBlock := by
  constructor
  · rfl
  · cases toBlock <;> rfl
  · rfl
  · cases stateDiffs <;> rfl

/-- The query selects this field of items of this kind. -/
def selects (query : Doc) (kind name : String) : Bool :=
  ((((query.get "fields").bind fun fields => fields.get kind).bind fun item => item.get name).bind
    Doc.asBool).getD false

theorem get_selection {names : List String} {name : String} (h : name ∈ names) :
    (selection names).get name = some (.bool true) := by
  induction names with
  | nil => cases h
  | cons n names ih =>
      by_cases hn : n = name
      · rw [selection, Doc.get, List.map_cons, List.find?_cons_of_pos (by simpa using hn)]
        rfl
      · rcases List.mem_cons.mp h with rfl | h
        · exact absurd rfl hn
        · have := ih h
          rw [selection, Doc.get] at this ⊢
          rw [List.map_cons, List.find?_cons_of_neg (by simpa using hn)]
          exact this

section Selects

variable {fromBlock : U64} {toBlock : Option U64} {stateDiffs : Bool} {name : String}

theorem selects_block (h : name ∈ blockFields) :
    selects (buildQuery fromBlock toBlock stateDiffs) "block" name = true := by
  have hkind : (((buildQuery fromBlock toBlock stateDiffs).get "fields").bind
      fun fields => fields.get "block") = some (selection blockFields) := rfl
  rw [selects, hkind, Option.bind_some, get_selection h]
  rfl

theorem selects_transaction (h : name ∈ transactionFields) :
    selects (buildQuery fromBlock toBlock stateDiffs) "transaction" name = true := by
  have hkind : (((buildQuery fromBlock toBlock stateDiffs).get "fields").bind
      fun fields => fields.get "transaction") = some (selection transactionFields) := rfl
  rw [selects, hkind, Option.bind_some, get_selection h]
  rfl

theorem selects_stateDiff (h : name ∈ stateDiffFields) :
    selects (buildQuery fromBlock toBlock true) "stateDiff" name = true := by
  have hkind : (((buildQuery fromBlock toBlock true).get "fields").bind
      fun fields => fields.get "stateDiff") = some (selection stateDiffFields) := rfl
  rw [selects, hkind, Option.bind_some, get_selection h]
  rfl

end Selects

/-! ## The fetcher -/

/-- `trim_end_matches('/')`. -/
def trimSlashes (s : String) : String := String.ofList (s.toList.rdropWhile (· == '/'))

structure SqdFetcher where
  portalUrl : String
  useStateDiffs : Bool := false
deriving DecidableEq, Repr

/-- `SqdFetcher::from_url`. -/
def SqdFetcher.fromUrl (streamUrl : String) : SqdFetcher where
  portalUrl := trimSlashes streamUrl

/-- `SqdFetcher::new`. -/
def SqdFetcher.new (portalUrl dataset : String) : SqdFetcher :=
  .fromUrl (trimSlashes portalUrl ++ "/datasets/" ++ dataset ++ "/stream")

def SqdFetcher.withStateDiffs (f : SqdFetcher) (enabled : Bool) : SqdFetcher :=
  { f with useStateDiffs := enabled }

/-- What is replied at a URL to a query, as the `k`-th request of a stream and by attempt. -/
abbrev Network := String → Doc → Nat → Nat → Reply

/-- The portal as one fetcher sees it. -/
def SqdFetcher.portal (f : SqdFetcher) (network : Network) : Portal :=
  fun k fromBlock toBlock => network f.portalUrl (buildQuery fromBlock toBlock f.useStateDiffs) k

end EvmState
