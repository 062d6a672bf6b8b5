import EvmState.Client.Steps
import EvmState.Client.Wasm

/-!
# Calls that are verified

Both clients run a call on the server, file the state it sends, run the call again on
what they have, and compare. The reads of the second run are kept beside the result,
with what they were told.
-/

namespace EvmState

/-- `TrustMode`. -/
inductive TrustMode where
  | trustServer
  | verify
deriving DecidableEq, Repr

/-- `CallResult`. -/
structure CallResult where
  output : Bytes
  success : Bool
  /-- Whether the two runs agree, if there were two. -/
  verified : Option Bool
deriving DecidableEq, Repr

/-- The transaction of a local execution, on top of revm's defaults; it is the same in both clients. -/
def localTxEnv (toAddr : Address) (calldata : Bytes) (fromAddr : Option Address)
    (value : Option U256) : TxEnv where
  txType := 0
  caller := fromAddr.getD 0
  gasLimit := 30000000
  gasPrice := 0
  kind := .call toAddr
  value := value.getD 0
  data := calldata
  nonce := 0
  chainId := some 1
  gasPriorityFee := none

/-- A local execution: the context is built from a fork alone, its block environment is left unset. -/
def localExecution (evm : Evm) (specId : SpecId) (toAddr : Address) (calldata : Bytes)
    (fromAddr : Option Address) (value : Option U256) : Execution :=
  evm.replay (.default specId) .default (localTxEnv toAddr calldata fromAddr value)

/-- What is taken from the outcome of a local execution. -/
def localResult : Except ClientError (Except EvmError ResultAndState) →
    Except ClientError PrefetchResult
  | .error e => .error (.evm ("Database(" ++ reprStr e ++ ")"))
  | .ok (.error e) => .error (.evm (reprStr e))
  | .ok (.ok r) => .ok ⟨r.result.output.getD [], r.result.isSuccess⟩

/-- The comparison of the two runs. -/
def compareRuns (server ran : PrefetchResult) : CallResult where
  output := ran.result
  success := ran.success
  verified := some (decide (ran.result = server.result ∧ ran.success = server.success))

/-- The reads of an execution, with what they were told. -/
abbrev ReadLog := Dialogue.Transcript Query Query.Answer

/-! ## On a remote database -/

namespace StateClient

variable (evm : Evm) (specId : SpecId) (mode : TrustMode) (toAddr : Address) (calldata : Bytes)
  (fromAddr : Option Address) (value : Option U256)

/-- `execute_locally`. -/
def executeLocally : Steps (ReadLog × Except ClientError PrefetchResult) :=
  ((localExecution evm specId toAddr calldata fromAddr value).interp Steps.read []).bind
    fun ran => .done (ran.1, localResult ran.2)

/-- `StateClient::call` behind the prefetch. -/
def resume (prefetched : PrefetchResult) : Steps (ReadLog × Except ClientError CallResult) :=
  match mode with
  | .trustServer => .done ([], .ok ⟨prefetched.result, prefetched.success, none⟩)
  | .verify =>
      (executeLocally evm specId toAddr calldata fromAddr value).bind fun ran =>
        .done (ran.1, ran.2.map (compareRuns prefetched))

/-- `StateClient::call`. -/
def call : Steps (ReadLog × Except ClientError CallResult) :=
  (Steps.prefetch (RemoteDb.prefetchRequest toAddr calldata fromAddr value)).bind fun prefetched =>
    match prefetched with
    | .ok prefetched => resume evm specId mode toAddr calldata fromAddr value prefetched
    | .error e => .done ([], .error e)

end StateClient

/-! ## In WASM -/

/-- The arguments of a call from JavaScript. -/
structure WasmCall where
  toAddr : String
  calldata : String
  fromAddr : Option String := none
  value : Option String := none
deriving DecidableEq, Repr

/-- The object a call returns. -/
structure WasmCallResult where
  output : String
  success : Bool
  verified : Option Bool
deriving DecidableEq, Repr

namespace WasmStateClient

/-- The body of a prefetch request: the arguments as they are, empty calldata left out. -/
def request (args : WasmCall) : PrefetchRequest where
  toAddr := args.toAddr
  data := if args.calldata = "" then none else some args.calldata
  fromAddr := args.fromAddr
  value := args.value

/-- The arguments as the local execution takes them, in the order they are parsed. -/
def parse (args : WasmCall) :
    Except ClientError (Address × Bytes × Option Address × Option U256) :=
  match Address.parse args.toAddr with
  | none => .error (.invalidResponse "invalid to address")
  | some toAddr =>
      match decodeBytes args.calldata with
      | .error e => .error e
      | .ok calldata =>
          match args.fromAddr.mapM Address.parse with
          | none => .error (.invalidResponse "invalid from address")
          | some fromAddr =>
              match args.value.mapM parseU256 with
              | .error e => .error e
              | .ok value => .ok (toAddr, calldata, fromAddr, value)

/-- `execute_locally`: the reads stay in the cache, and the fork is fixed. -/
def executeLocally (evm : Evm) (c : WasmCache) (toAddr : Address) (calldata : Bytes)
    (fromAddr : Option Address) (value : Option U256) :
    ReadLog × Except ClientError PrefetchResult :=
  let execution := localExecution evm .CANCUN toAddr calldata fromAddr value
  (execution.transcript c.view, localResult (execution.eval c.view))

/-- `WasmStateClient::call` from the response on; nothing else runs until it returns. -/
def call (evm : Evm) (verify : Bool) (args : WasmCall) (resp : PrefetchResponse) (c : WasmCache) :
    WasmCache × ReadLog × Except ClientError WasmCallResult :=
  match c.receive resp with
  | (c', .error e) => (c', [], .error e)
  | (c', .ok prefetched) =>
      if verify then
        match parse args with
        | .error e => (c', [], .error e)
        | .ok (toAddr, calldata, fromAddr, value) =>
            let ran := executeLocally evm c' toAddr calldata fromAddr value
            (c', ran.1, ran.2.map fun ran =>
              let result := compareRuns prefetched ran
              ⟨bytesToHex result.output, result.success, result.verified⟩)
      else (c', [], .ok ⟨bytesToHex prefetched.result, prefetched.success, none⟩)

end WasmStateClient

end EvmState
