import Mathlib.Logic.Relation

/-!
# Loading the WASM client

An `EvmStateClient` loads its WASM client with the first call that needs it. Calls are
concurrent: each runs on its own up to an `await`, and what happens there happens in any
order. `ensureInitialized` starts one load, and whoever comes before it is done waits for
its promise.
-/

namespace EvmState

/-- `EvmStateClientConfig`. -/
structure EvmStateClientConfig where
  endpoint : String
  verify : Option Bool := none
deriving DecidableEq, Repr

/-- A `WasmStateClient`: the how many-th that was made, and what for. -/
structure WasmHandle where
  serial : Nat
  endpoint : String
  verify : Bool
deriving DecidableEq, Repr

/-- Where the function behind `initPromise` stands. -/
inductive InitPromise where
  /-- At `await import("evm-state-client-wasm")`. -/
  | importing
  /-- At `await wasm.default()`. -/
  | starting
  | fulfilled
  | rejected
deriving DecidableEq, Repr

/-- Where a call of `ensureInitialized` stands. -/
inductive InitCall where
  /-- At `await this.initPromise`. -/
  | waiting
  /-- With `this.wasmClient!`, which may be `null` for all the type says. -/
  | returned (wasm : Option WasmHandle)
  | threw
deriving DecidableEq, Repr

/-- An `EvmStateClient` with the calls made so far, and what they have loaded and made. -/
structure EvmStateClient where
  config : EvmStateClientConfig
  wasmClient : Option WasmHandle := none
  initPromise : Option InitPromise := none
  callers : List InitCall := []
  imports : Nat := 0
  made : Nat := 0
deriving DecidableEq, Repr

namespace EvmStateClient

/-- The constructor. -/
def new (config : EvmStateClientConfig) : EvmStateClient := { config }

/-- `fromWasmClient`, with what it is given of a configuration. -/
def fromWasmClient (wasm : WasmHandle) (endpoint : Option String) (verify : Option Bool) :
    EvmStateClient :=
  { new ⟨endpoint.getD "mock://", verify⟩ with wasmClient := some wasm }

/-- One more call, up to its first `await`. -/
def ensureInitialized (c : EvmStateClient) : EvmStateClient :=
  match c.wasmClient with
  | some wasm => { c with callers := c.callers ++ [.returned (some wasm)] }
  | none =>
      match c.initPromise with
      | some _ => { c with callers := c.callers ++ [.waiting] }
      -- the load runs up to its first `await` at once
      | none =>
          { c with
            initPromise := some .importing
            imports := c.imports + 1
            callers := c.callers ++ [.waiting] }

/-- The end of a load: the client is made and kept. -/
def makeClient (c : EvmStateClient) : EvmStateClient :=
  { c with
    wasmClient := some ⟨c.made, c.config.endpoint, c.config.verify.getD false⟩
    made := c.made + 1
    initPromise := some .fulfilled }

/-- What can happen next. -/
inductive Step : EvmStateClient → EvmStateClient → Prop
  | called {c : EvmStateClient} : Step c c.ensureInitialized
  | imported {c : EvmStateClient} : c.initPromise = some .importing →
      Step c { c with initPromise := some .starting }
  | importFailed {c : EvmStateClient} : c.initPromise = some .importing →
      Step c { c with initPromise := some .rejected }
  | started {c : EvmStateClient} : c.initPromise = some .starting → Step c c.makeClient
  | startFailed {c : EvmStateClient} : c.initPromise = some .starting →
      Step c { c with initPromise := some .rejected }
  /-- A call goes on behind a promise that is fulfilled. -/
  | resumed {c : EvmStateClient} {i : Nat} : c.initPromise = some .fulfilled →
      c.callers[i]? = some .waiting →
      Step c { c with callers := c.callers.set i (.returned c.wasmClient) }
  /-- Behind one that is rejected it throws. -/
  | refused {c : EvmStateClient} {i : Nat} : c.initPromise = some .rejected →
      c.callers[i]? = some .waiting → Step c { c with callers := c.callers.set i .threw }

/-- Any number of steps. -/
abbrev Steps : EvmStateClient → EvmStateClient → Prop := Relation.ReflTransGen Step

end EvmStateClient

end EvmState
