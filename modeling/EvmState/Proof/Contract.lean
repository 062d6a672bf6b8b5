import EvmState.Client.Contract
import EvmState.Proof.Transport

/-!
# What a contract reader answers

A read is a call of the client between two steps of viem. So it resolves exactly to what
viem decodes from the output of the call it means on the server's database, and the same
call put as an `eth_call` over the transport leads to the same end
(`ContractReader.get_exact`).
-/

namespace EvmState

/-- An `eth_call` for the call of a read. -/
structure CallObject.Sends (o : CallObject) (address calldata : String)
    (options : Option CallOptions) : Prop where
  toAddr : o.toAddr = address
  data : o.data = some calldata
  fromAddr : o.fromAddr = options.bind CallOptions.fromAddr
  value : o.value.mapM Js.bigInt = some (options.bind CallOptions.value)

/-- The call a read means, once its arguments are encoded. -/
def ContractReader.meant (r : ContractReader) (calldata : String) (options : Option CallOptions) :
    Option ViewCall :=
  EvmStateClient.meant r.address calldata (options.bind CallOptions.fromAddr)
    (options.bind CallOptions.value)

namespace ContractReader

section Reads

variable {Value : Type} {viem : Viem Value} {evm : Evm} {spec : ChainSpec} {db : StateDb}
  {verify : Bool} {r : ContractReader} {prop : String} {args : Option (List Value)}
  {options : Option CallOptions}

/-- What a reader makes of the outcome of a call. -/
def readOutcome (viem : Viem Value) (r : ContractReader) (prop : String) (ran : PrefetchResult) :
    Except ReadError Value :=
  if ran.success then
    (viem.decodeFunctionResult r.abi prop (bytesToHex ran.result)).mapError .viem
  else .error (.message s!"Contract call reverted: {prop}() at {r.address}")

theorem mapError_eq_ok {ε δ α : Type} {f : ε → δ} {x : Except ε α} {v : α} :
    x.mapError f = .ok v ↔ x = .ok v := by
  cases x <;> simp [Except.mapError]

theorem readOutcome_eq_ok {ran : PrefetchResult} {v : Value} :
    readOutcome viem r prop ran = .ok v ↔ ran.success = true
      ∧ viem.decodeFunctionResult r.abi prop (bytesToHex ran.result) = .ok v := by
  unfold readOutcome
  split
  · rename_i hsuccess
    rw [mapError_eq_ok]
    exact ⟨fun h => ⟨hsuccess, h⟩, fun h => h.2⟩
  · rename_i hfailed
    exact ⟨nofun, fun h => absurd h.1 hfailed⟩

theorem readOutcome_eq_message {ran : PrefetchResult} {text : String} :
    readOutcome viem r prop ran = .error (.message text) ↔ ran.success = false
      ∧ text = s!"Contract call reverted: {prop}() at {r.address}" := by
  unfold readOutcome
  split
  · rename_i hsuccess
    constructor
    · intro h
      -- a run that succeeded is decoded, and no decoding error has this text
      cases hdecode : viem.decodeFunctionResult r.abi prop (bytesToHex ran.result) with
      | ok v => rw [hdecode] at h; cases h
      | error e => rw [hdecode] at h; cases h
    · intro h
      rw [hsuccess] at h
      cases h.1
  · rename_i hfailed
    rw [Bool.not_eq_true] at hfailed
    constructor
    · intro h
      injection h with h
      injection h with h
      exact ⟨hfailed, h.symm⟩
    · rintro ⟨_, rfl⟩
      rfl

/-- **A read whose call is meant** ends as its outcome is read. -/
theorem method_meant (hdb : db.WellFormed) {data : String}
    (hdata : viem.encodeFunctionData r.abi prop (args.getD []) = .ok data) {call : ViewCall}
    (h : r.meant data options = some call) (c : WasmCache) :
    (∃ ran, db.outcome evm spec call = some ran
        ∧ (r.method viem evm spec db false prop args options c).2 = readOutcome viem r prop ran)
      ∨ db.outcome evm spec call = none
        ∧ ∃ e, r.method viem evm spec db false prop args options c = (c, .error (.client e)) := by
  rw [method, hdata]
  dsimp only
  -- only a caller the server accepts gets an outcome to read
  rcases @call_meant evm spec db _ _ _ _ hdb call h c with ⟨ran, houtcome, hran⟩ | ⟨hnone, e, he⟩
  · refine .inl ⟨ran, houtcome, ?_⟩
    generalize EvmStateClient.call evm spec db false r.address data
      (options.bind CallOptions.fromAddr) (options.bind CallOptions.value) c = called at hran
    obtain ⟨c', result⟩ := called
    obtain rfl : result = _ := hran
    rw [readOutcome]
    cases ran.success <;> rfl
  · exact .inr ⟨hnone, e, by rw [he]⟩

theorem method_not_meant {data : String}
    (hdata : viem.encodeFunctionData r.abi prop (args.getD []) = .ok data)
    (h : r.meant data options = none) (c : WasmCache) :
    r.method viem evm spec db verify prop args options c
      = (c, .error (.client (.server 400))) := by
  rw [method, hdata]
  dsimp only
  rw [call_not_meant h]

theorem method_not_encoded {text : String}
    (hdata : viem.encodeFunctionData r.abi prop (args.getD []) = .error text) (c : WasmCache) :
    r.method viem evm spec db verify prop args options c = (c, .error (.viem text)) := by
  rw [method, hdata]

/-- **The transport leads to the same end**, verified or not. -/
theorem method_transport {data : String}
    (hdata : viem.encodeFunctionData r.abi prop (args.getD []) = .ok data) {o : CallObject}
    (ho : o.Sends r.address data options) (c : WasmCache) :
    let read := r.method viem evm spec db verify prop args options c
    let sent := transportRequest evm spec db verify "eth_call" o c
    read.1 = sent.1 ∧ ∀ v, read.2 = .ok v ↔ ∃ text, sent.2 = .ok text
      ∧ viem.decodeFunctionResult r.abi prop text = .ok v := by
  intro read sent
  have hread : read = r.method viem evm spec db verify prop args options c := rfl
  have hsent : sent = transportRequest evm spec db verify "eth_call" o c := rfl
  rw [method, hdata] at hread
  rw [transportRequest, if_pos rfl, ho.value, ho.toAddr, ho.data, ho.fromAddr] at hsent
  dsimp only [Option.getD_some] at hread hsent
  -- both make the same call; they differ in what they do with its outcome
  generalize EvmStateClient.call evm spec db verify r.address data
    (options.bind CallOptions.fromAddr) (options.bind CallOptions.value) c = called at hread hsent
  obtain ⟨c', e | result⟩ := called
  · simp [hread, hsent]
  · dsimp only at hread hsent
    split at hread
    · rename_i hsuccess
      rw [if_pos hsuccess] at hsent
      simp [hread, hsent, mapError_eq_ok]
    · rename_i hfailed
      rw [if_neg hfailed] at hsent
      simp [hread, hsent]

end Reads

/--
**A contract read is exact.** Through a client that trusts the server, whatever it has
cached, a read resolves to what viem decodes from the output of the call it means, if that
succeeds on the server's database, and says that it reverted exactly if the call reverts or
halts there. An `eth_call` over the transport for the same call leaves the client in the
same state and has the same output to decode, also where calls are verified.
-/
theorem get_exact {Value : Type} (viem : Viem Value) (evm : Evm) (spec : ChainSpec) {db : StateDb}
    (hdb : db.WellFormed) (verify : Bool) {r : ContractReader} {prop : String}
    {method : Option (List Value) → Option CallOptions → WasmCache →
      WasmCache × Except ReadError Value}
    (hget : r.get viem evm spec db verify prop = some method) (args : Option (List Value))
    (options : Option CallOptions) (c : WasmCache) :
    let encoded := viem.encodeFunctionData r.abi prop (args.getD [])
    let read := method args options c
    (verify = false →
      (∀ v, read.2 = .ok v ↔ ∃ data call ran, encoded = .ok data
          ∧ r.meant data options = some call ∧ db.outcome evm spec call = some ran
          ∧ ran.success = true
          ∧ viem.decodeFunctionResult r.abi prop (bytesToHex ran.result) = .ok v)
        ∧ ∀ text, read.2 = .error (.message text) ↔ ∃ data call ran, encoded = .ok data
          ∧ r.meant data options = some call ∧ db.outcome evm spec call = some ran
          ∧ ran.success = false ∧ text = s!"Contract call reverted: {prop}() at {r.address}")
      ∧ ∀ data o, encoded = .ok data → CallObject.Sends o r.address data options →
        let sent := transportRequest evm spec db verify "eth_call" o c
        read.1 = sent.1 ∧ ∀ v, read.2 = .ok v ↔ ∃ text, sent.2 = .ok text
          ∧ viem.decodeFunctionResult r.abi prop text = .ok v := by
  intro encoded read
  have hmethod : read = r.method viem evm spec db verify prop args options c := by
    -- a property that is a function of the ABI is its method
    obtain ⟨_, _, rfl⟩ := Option.map_eq_some_iff.mp hget
    rfl
  refine ⟨?_, fun data o hdata ho => hmethod ▸ method_transport hdata ho c⟩
  rintro rfl
  rw [hmethod]
  cases hdata : encoded with
  | error e =>
      rw [method_not_encoded hdata]
      simp
  | ok data =>
      cases hmeant : r.meant data options with
      | none =>
          rw [method_not_meant hdata hmeant]
          simp [hmeant]
      | some call =>
          rcases @method_meant Value viem evm spec db r prop args options hdb data hdata call hmeant c
            with ⟨ran, houtcome, h⟩ | ⟨hnone, e, h⟩
          · rw [h]
            constructor
            · intro v
              simp [readOutcome_eq_ok, hmeant, houtcome]
            · intro text
              simp [readOutcome_eq_message, hmeant, houtcome]
          · rw [h]
            simp [hmeant, hnone]

end ContractReader

/-! ## A contract with one function -/

/-- `function number() view returns (uint256)`. -/
def numberReader : ContractReader where
  address := "0x000000000000000000000000000000000000000c"
  abi :=
    [.object
      [("type", .string "function"), ("name", .string "number"), ("inputs", .array []),
        ("outputs", .array [.object [("name", .string ""), ("type", .string "uint256")]]),
        ("stateMutability", .string "view")]]

/-- What viem does with it. -/
def numberViem : Viem Nat where
  encodeFunctionData _ name args :=
    if name = "number" ∧ args = [] then .ok "0x8381f58a" else .error "AbiFunctionNotFoundError"
  decodeFunctionResult _ _ data :=
    match parseU256Hex data with
    | some n => .ok n.toNat
    | none => .error "AbiDecodingZeroDataError"

/-- It reads the head. -/
theorem get_exact_number :
    ∃ method, numberReader.get numberViem (.small smallKeccak256) ethereumMainnet numberDb false
        "number" = some method
      ∧ (method none none .new).2 = .ok 5 := by
  have hdb : numberDb.WellFormed := StateDb.wellFormed_commit StateDb.wellFormed_empty _
  have hget : numberReader.get numberViem (.small smallKeccak256) ethereumMainnet numberDb false
      "number" = some (numberReader.method numberViem (.small smallKeccak256) ethereumMainnet
        numberDb false "number") := rfl
  have hmeant : numberReader.meant "0x8381f58a" none
      = some ⟨0xC, 0, [0x83, 0x81, 0xf5, 0x8a], 0⟩ := by decide
  -- the contract does not look at its calldata
  have houtcome : numberDb.outcome (.small smallKeccak256) ethereumMainnet
      ⟨0xC, 0, [0x83, 0x81, 0xf5, 0x8a], 0⟩ = some (numberOutcome 5) := by decide +kernel
  have hdecode : numberViem.decodeFunctionResult numberReader.abi "number"
      (bytesToHex (beOf 32 (5 : U256))) = .ok 5 := by decide
  refine ⟨_, hget, ?_⟩
  exact ((ContractReader.get_exact numberViem (.small smallKeccak256) ethereumMainnet hdb false hget
    none none .new).1 rfl).1 5 |>.mpr ⟨_, _, _, rfl, hmeant, houtcome, rfl, hdecode⟩

end EvmState
