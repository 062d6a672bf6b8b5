import EvmState.Client.Transport
import EvmState.Serde

/-!
# The contract reader

Besides the transport, an `EvmStateClient` gives out readers of contracts: a reader has a
method for each view or pure function of an ABI, by name. viem encodes the arguments and
decodes the output, each with the whole ABI at hand; here it is a parameter.
-/

namespace EvmState

/-- The functions of viem that a reader uses; either may throw, with a text. -/
structure Viem (Value : Type) where
  encodeFunctionData : List JsonValue → String → List Value → Except String String
  decodeFunctionResult : List JsonValue → String → String → Except String Value

/-- The string under a name of an object; of two members with one name the last counts. -/
def JsonValue.strMember (name : String) : JsonValue → Option String
  | .object ms =>
      match (JsonMembers.named ms name).getLast? with
      | some (.string s) => some s
      | _ => none
  | _ => none

/-- What `createContractReader` is given besides the client. -/
structure ContractReader where
  address : String
  abi : List JsonValue

/-- Options of a call. -/
structure CallOptions where
  fromAddr : Option String := none
  value : Option Int := none
deriving DecidableEq, Repr

/-- What a read is rejected with. -/
inductive ReadError where
  /-- viem threw. -/
  | viem (text : String)
  | client (e : ClientError)
  | message (text : String)
deriving DecidableEq, Repr

namespace ContractReader

def viewFunctions (r : ContractReader) : List JsonValue :=
  r.abi.filter fun item =>
    item.strMember "type" == some "function"
      && (item.strMember "stateMutability" == some "view"
        || item.strMember "stateMutability" == some "pure")

/-- The `has` of the proxy. -/
def has (r : ContractReader) (prop : String) : Bool :=
  r.viewFunctions.any fun f => f.strMember "name" == some prop

section Read

variable {Value : Type} (viem : Viem Value) (evm : Evm) (spec : ChainSpec) (db : StateDb)
  (verify : Bool)

/-- The method under a name. -/
def method (r : ContractReader) (prop : String) (args : Option (List Value))
    (options : Option CallOptions) (c : WasmCache) : WasmCache × Except ReadError Value :=
  match viem.encodeFunctionData r.abi prop (args.getD []) with
  | .error text => (c, .error (.viem text))
  | .ok calldata =>
      match EvmStateClient.call evm spec db verify r.address calldata
        (options.bind CallOptions.fromAddr) (options.bind CallOptions.value) c with
      | (c', .error e) => (c', .error (.client e))
      | (c', .ok result) =>
          if result.success then
            (c', (viem.decodeFunctionResult r.abi prop result.output).mapError .viem)
          else (c', .error (.message s!"Contract call reverted: {prop}() at {r.address}"))

/-- The `get` of the proxy, which does not look at the function it finds. -/
def get (r : ContractReader) (prop : String) :
    Option (Option (List Value) → Option CallOptions → WasmCache →
      WasmCache × Except ReadError Value) :=
  (r.viewFunctions.find? fun f => f.strMember "name" == some prop).map fun _ =>
    r.method viem evm spec db verify prop

end Read

end ContractReader

end EvmState
