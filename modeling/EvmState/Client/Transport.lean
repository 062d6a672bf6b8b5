import EvmState.Client.Calls

/-!
# The viem transport

In JavaScript the WASM client sits behind an `EvmStateClient`, and that behind a transport
of viem: an `eth_call` becomes a call of the client, its value a `bigint` on the way and
hex text again behind it. Other methods are not supported. What the server answers with is
the state of its database at the request.
-/

namespace EvmState

/-! ## Integers of JavaScript -/

namespace Js

/-- White space and line terminators. -/
def isStrWhiteSpace (c : Char) : Bool :=
  let n := c.toNat
  (9 ≤ n && n ≤ 13) || n == 0x20 || n == 0xA0 || n == 0x1680 || (0x2000 ≤ n && n ≤ 0x200A)
    || n == 0x2028 || n == 0x2029 || n == 0x202F || n == 0x205F || n == 0x3000 || n == 0xFEFF

def trim (cs : List Char) : List Char :=
  ((cs.dropWhile isStrWhiteSpace).reverse.dropWhile isStrWhiteSpace).reverse

/-- One digit at least. -/
def digits (radix : Nat) (cs : List Char) : Option Int :=
  if cs = [] then none else (Radix.readDigits radix cs).map Int.ofNat

/-- `BigInt` of a string, or a `SyntaxError`; only decimal numbers may have a sign. -/
def bigInt (s : String) : Option Int :=
  match trim s.toList with
  | [] => some 0
  | '0' :: 'x' :: cs | '0' :: 'X' :: cs => digits 16 cs
  | '0' :: 'o' :: cs | '0' :: 'O' :: cs => digits 8 cs
  | '0' :: 'b' :: cs | '0' :: 'B' :: cs => digits 2 cs
  | '+' :: cs => digits 10 cs
  | '-' :: cs => (digits 10 cs).map Neg.neg
  | cs => digits 10 cs

/-- `value.toString(16)`. -/
def toString16 : Int → List Char
  | .ofNat n => Nat.toDigits 16 n
  | .negSucc n => '-' :: Nat.toDigits 16 (n + 1)

end Js

/-! ## The client -/

section Client

variable (evm : Evm) (spec : ChainSpec) (db : StateDb) (verify : Bool)

/-- A call of the WASM client, with the server at a database. -/
def WasmStateClient.callServer (args : WasmCall) (c : WasmCache) :
    WasmCache × Except ClientError WasmCallResult :=
  match postPrefetch evm db spec (request args) with
  | .error e => (c, .error (.server e.status))
  | .ok resp =>
      let called := WasmStateClient.call evm verify args resp c
      (called.1, called.2.2)

/-- `EvmStateClient.call`, once the WASM client is loaded. -/
def EvmStateClient.call (toAddr calldata : String) (fromAddr : Option String)
    (value : Option Int) (c : WasmCache) : WasmCache × Except ClientError WasmCallResult :=
  WasmStateClient.callServer evm spec db verify
    { toAddr, calldata, fromAddr, value := value.map fun v => marked (Js.toString16 v) } c

/-! ## The transport -/

/-- The first parameter of an `eth_call`. -/
structure CallObject where
  toAddr : String
  data : Option String := none
  fromAddr : Option String := none
  value : Option String := none
deriving DecidableEq, Repr

/-- What a request is rejected with. -/
inductive TransportError where
  /-- `BigInt` could not read the value. -/
  | syntaxError
  | client (e : ClientError)
  | message (text : String)
deriving DecidableEq, Repr

/-- The `request` of `createEvmStateTransport`. -/
def transportRequest (method : String) (callObj : CallObject) (c : WasmCache) :
    WasmCache × Except TransportError String :=
  if method = "eth_call" then
    match callObj.value.mapM Js.bigInt with
    | none => (c, .error .syntaxError)
    | some value =>
        match EvmStateClient.call evm spec db verify callObj.toAddr (callObj.data.getD "0x")
          callObj.fromAddr value c with
        | (c', .error e) => (c', .error (.client e))
        | (c', .ok result) =>
            if result.success then (c', .ok result.output)
            else (c', .error (.message s!"eth_call reverted: {result.output}"))
  else (c, .error (.message s!"EVM state transport does not support method: {method}"))

end Client

end EvmState
