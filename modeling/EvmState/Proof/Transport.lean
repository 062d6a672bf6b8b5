import EvmState.Client.Transport
import EvmState.Proof.Served
import EvmState.Proof.WireFormat

/-!
# What an `eth_call` over the transport answers

An `eth_call` means a call if its address, its sender and its data can be read and its
value is an integer of 256 bits (`CallObject.meant`). On its way it is read twice, by
JavaScript and by the server, with hex text in between; nothing is lost or made up there
(`parse_callArgs`). So a client that trusts the server answers exactly what the call it
means comes to on the server's database (`transportRequest_exact`).
-/

namespace EvmState

/-- A 256-bit value. -/
def Js.toU256 : Int → Option U256
  | .ofNat n => fits 256 n
  | .negSucc _ => none

/-- The call a parameter stands for. -/
def CallObject.meant (o : CallObject) : Option ViewCall :=
  match Address.parse o.toAddr, o.fromAddr.mapM Address.parse, decodeHexBytes (o.data.getD "0x"),
      o.value.mapM fun s => (Js.bigInt s).bind Js.toU256 with
  | some toAddr, some fromAddr, some calldata, some value =>
      some ⟨toAddr, fromAddr.getD 0, calldata, value.getD 0⟩
  | _, _, _, _ => none

/-- Hex text of an integer is read back if it is a 256-bit value. -/
theorem parseU256Hex_toString16 (n : Int) :
    parseU256Hex (marked (Js.toString16 n)) = Js.toU256 n := by
  rw [parseU256Hex, hexBody_marked, U256.fromStrRadix]
  cases n with
  | ofNat n =>
      rw [Js.toString16, filter_toDigits, Radix.readDigits_toDigits (by omega) (by omega)]
      rfl
  | negSucc n =>
      -- a minus sign is no digit
      rw [Js.toString16, List.filter_cons_of_pos (by decide)]
      rfl

namespace EvmStateClient

/-- The call that the arguments of a call of the client stand for. -/
def meant (toAddr calldata : String) (fromAddr : Option String) (value : Option Int) :
    Option ViewCall :=
  match Address.parse toAddr, fromAddr.mapM Address.parse, decodeHexBytes calldata,
      value.mapM Js.toU256 with
  | some toAddr, some fromAddr, some calldata, some value =>
      some ⟨toAddr, fromAddr.getD 0, calldata, value.getD 0⟩
  | _, _, _, _ => none

/-- What they become for the WASM client. -/
def args (toAddr calldata : String) (fromAddr : Option String) (value : Option Int) : WasmCall where
  toAddr := toAddr
  calldata := calldata
  fromAddr := fromAddr
  value := value.map fun v => marked (Js.toString16 v)

end EvmStateClient

/-- A parameter whose value is read stands for what the client is called with. -/
theorem CallObject.meant_eq {o : CallObject} {value : Option Int}
    (hvalue : o.value.mapM Js.bigInt = some value) :
    o.meant = EvmStateClient.meant o.toAddr (o.data.getD "0x") o.fromAddr value := by
  -- the provider turns the text into a number, the client the number into 256 bits
  have hamount : (o.value.mapM fun s => (Js.bigInt s).bind Js.toU256) = value.mapM Js.toU256 := by
    cases htext : o.value with
    | none =>
        rw [htext] at hvalue
        obtain rfl := Option.some.inj hvalue
        rfl
    | some s =>
        cases hint : Js.bigInt s with
        | none => simp [htext, hint] at hvalue
        | some n =>
            obtain rfl : some n = value := by simpa [htext, hint] using hvalue
            simp [hint]
  rw [CallObject.meant, EvmStateClient.meant, hamount]

section Parse

variable {toAddr calldata : String} {fromAddr : Option String} {value : Option Int}

/-- The sender is read as it is meant. -/
theorem parse_sender {text : Option String} {a : Option Address}
    (h : text.mapM Address.parse = some a) :
    (text.map Api.parseAddress).getD (.ok 0) = .ok (a.getD 0) := by
  have hparse := WasmStateClient.of_mapM_address h
  cases text with
  | none =>
      cases a with
      | none => rfl
      | some a => cases hparse
  | some s =>
      cases a with
      | none => cases hparse
      | some a =>
          have hs : Address.parse s = some a := Option.some.inj hparse
          simp [Api.parseAddress, hs]

theorem parse_sender_error {text : Option String} (h : text.mapM Address.parse = none) :
    ∃ msg, (text.map Api.parseAddress).getD (.ok 0) = .error (.badRequest msg) := by
  cases text with
  | none => cases h
  | some s =>
      cases hs : Address.parse s with
      | none => exact ⟨s!"invalid address: {s}", by simp [Api.parseAddress, hs]⟩
      | some a => simp [hs] at h

/-- So is the data; empty data is not sent. -/
theorem parse_data (text : String) :
    ((if text = "" then none else some text).map decodeHexBytes).getD (some [])
      = decodeHexBytes text := by
  split
  · rename_i h
    rw [h]
    rfl
  · rfl

/-- And the value, over its hex text. -/
theorem parse_value (value : Option Int) :
    ((value.map fun v => marked (Js.toString16 v)).map parseU256Hex).getD (some 0)
      = (value.mapM Js.toU256).map fun v => v.getD 0 := by
  cases value with
  | none => rfl
  | some n =>
      simp only [Option.map_some, Option.getD_some, parseU256Hex_toString16]
      cases hn : Js.toU256 n <;> simp [hn]

/-- **The server reads** the call that is meant. -/
theorem parse_of_meant {call : ViewCall}
    (h : EvmStateClient.meant toAddr calldata fromAddr value = some call) :
    (WasmStateClient.request (EvmStateClient.args toAddr calldata fromAddr value)).parse
      = .ok call := by
  unfold EvmStateClient.meant at h
  split at h
  · rename_i target sender data amount ha hs hd hv
    obtain rfl := Option.some.inj h
    -- the four fields are read back one by one, in the order the server parses them
    have hto : Api.parseAddress
        (WasmStateClient.request (EvmStateClient.args toAddr calldata fromAddr value)).toAddr
          = .ok target := by
      rw [WasmStateClient.request, EvmStateClient.args, Api.parseAddress, ha]
    have hfrom := parse_sender hs
    have hdata := (parse_data calldata).trans hd
    have hamount := parse_value value
    rw [hv, Option.map_some] at hamount
    rw [PrefetchRequest.parse, hto]
    dsimp only [WasmStateClient.request, EvmStateClient.args]
    rw [hfrom]
    dsimp only
    rw [hdata]
    dsimp only
    rw [hamount]
  · cases h

/-- Where none is, it reads nothing. -/
theorem parse_of_not_meant (h : EvmStateClient.meant toAddr calldata fromAddr value = none) :
    ∃ text, (WasmStateClient.request (EvmStateClient.args toAddr calldata fromAddr value)).parse
      = .error (.badRequest text) := by
  have hdata := parse_data calldata
  have hamount := parse_value value
  rw [PrefetchRequest.parse, Api.parseAddress]
  dsimp only [WasmStateClient.request, EvmStateClient.args]
  cases ha : Address.parse toAddr with
  | none => exact ⟨_, rfl⟩
  | some target =>
  cases hs : fromAddr.mapM Address.parse with
  | none =>
      obtain ⟨msg, hmsg⟩ := parse_sender_error hs
      rw [hmsg]
      exact ⟨_, rfl⟩
  | some sender =>
  rw [parse_sender hs]
  dsimp only
  rw [hdata]
  cases hd : decodeHexBytes calldata with
  | none => exact ⟨_, rfl⟩
  | some data =>
  dsimp only
  rw [hamount]
  cases hv : value.mapM Js.toU256 with
  | none => exact ⟨_, rfl⟩
  | some amount =>
      -- all four read, so the arguments do mean a call
      rw [EvmStateClient.meant, ha, hs, hd, hv] at h
      cases h

end Parse

/-! ## Answers -/

/-- What a call comes to on a database, for whoever has the server run it. -/
def StateDb.outcome (evm : Evm) (spec : ChainSpec) (db : StateDb) (call : ViewCall) :
    Option PrefetchResult :=
  EvmState.outcome ((prefetchExecution evm spec db.headOrZero call).eval db.view)

section Answers

variable {evm : Evm} {spec : ChainSpec} {db : StateDb}

/-- **A trusting client returns** what the call comes to; where that is nothing, it fails. -/
theorem callServer_trusting (hdb : db.WellFormed) {args : WasmCall} {call : ViewCall}
    (hparse : (WasmStateClient.request args).parse = .ok call) (c : WasmCache) :
    (∃ ran, db.outcome evm spec call = some ran
        ∧ (WasmStateClient.callServer evm spec db false args c).2
          = .ok ⟨bytesToHex ran.result, ran.success, none⟩)
      ∨ db.outcome evm spec call = none
        ∧ ∃ e, WasmStateClient.callServer evm spec db false args c = (c, .error e) := by
  rw [WasmStateClient.callServer, postPrefetch, hparse]
  cases hresp : prefetch evm db spec call with
  | ok resp =>
      obtain ⟨ps, r, _, _, hr, _, _, hreceive⟩ := receive_prefetch hresp
      refine .inl ⟨⟨r.result.output.getD [], r.result.isSuccess⟩, ?_, ?_⟩
      · rw [StateDb.outcome, hr]
        rfl
      · simp only [hresp, WasmStateClient.call, WasmCache.receive, hreceive, Bool.false_eq_true,
          if_false]
  | error e =>
      refine .inr ⟨?_, .server e.status, by simp only [hresp]⟩
      -- an execution with a result would have been answered
      cases houtcome : db.outcome evm spec call with
      | none => rfl
      | some ran =>
          obtain ⟨r, hr, _⟩ := outcome_eq_some.mp houtcome
          obtain ⟨resp, hok⟩ := (prefetch_of_eval hdb hr).1 r rfl
          rw [hresp] at hok
          cases hok

section ClientCall

variable {toAddr calldata : String} {fromAddr : Option String} {value : Option Int}

theorem call_meant (hdb : db.WellFormed) {call : ViewCall}
    (h : EvmStateClient.meant toAddr calldata fromAddr value = some call) (c : WasmCache) :
    (∃ ran, db.outcome evm spec call = some ran
        ∧ (EvmStateClient.call evm spec db false toAddr calldata fromAddr value c).2
          = .ok ⟨bytesToHex ran.result, ran.success, none⟩)
      ∨ db.outcome evm spec call = none
        ∧ ∃ e, EvmStateClient.call evm spec db false toAddr calldata fromAddr value c
          = (c, .error e) :=
  callServer_trusting hdb (parse_of_meant h) c

theorem call_not_meant {verify : Bool}
    (h : EvmStateClient.meant toAddr calldata fromAddr value = none) (c : WasmCache) :
    EvmStateClient.call evm spec db verify toAddr calldata fromAddr value c
      = (c, .error (.server 400)) := by
  obtain ⟨text, hparse⟩ := parse_of_not_meant h
  have hcall : EvmStateClient.call evm spec db verify toAddr calldata fromAddr value c
      = WasmStateClient.callServer evm spec db verify
        (EvmStateClient.args toAddr calldata fromAddr value) c := rfl
  rw [hcall, WasmStateClient.callServer, postPrefetch, hparse]
  rfl

end ClientCall

/-- The value of a call that is meant is an integer. -/
theorem exists_value_of_meant {o : CallObject} {call : ViewCall} (h : o.meant = some call) :
    ∃ value, o.value.mapM Js.bigInt = some value := by
  unfold CallObject.meant at h
  split at h
  · rename_i hv
    cases htext : o.value with
    | none => exact ⟨none, rfl⟩
    | some s =>
        cases hint : Js.bigInt s with
        | none => simp [htext, hint] at hv
        | some n => exact ⟨some n, by simp [hint]⟩
  · cases h

/-- What the transport makes of an outcome. -/
def transportOutcome (ran : PrefetchResult) : Except TransportError String :=
  if ran.success then .ok (bytesToHex ran.result)
  else .error (.message s!"eth_call reverted: {bytesToHex ran.result}")

theorem transportRequest_meant (hdb : db.WellFormed) {o : CallObject} {call : ViewCall}
    (h : o.meant = some call) (c : WasmCache) :
    (∃ ran, db.outcome evm spec call = some ran
        ∧ (transportRequest evm spec db false "eth_call" o c).2 = transportOutcome ran)
      ∨ db.outcome evm spec call = none
        ∧ ∃ e, transportRequest evm spec db false "eth_call" o c = (c, .error (.client e)) := by
  obtain ⟨value, hvalue⟩ := exists_value_of_meant h
  rw [CallObject.meant_eq hvalue] at h
  rw [transportRequest, if_pos rfl, hvalue]
  dsimp only
  rcases @call_meant evm spec db _ _ _ _ hdb call h c with ⟨ran, houtcome, hran⟩ | ⟨hnone, e, he⟩
  · refine .inl ⟨ran, houtcome, ?_⟩
    -- the text sent back depends on the success flag the client was told
    generalize EvmStateClient.call evm spec db false o.toAddr (o.data.getD "0x") o.fromAddr value c
      = called at hran
    obtain ⟨c', result⟩ := called
    obtain rfl : result = _ := hran
    rw [transportOutcome]
    cases ran.success <;> rfl
  · exact .inr ⟨hnone, e, by rw [he]⟩

/-- A request that means no call gets nowhere. -/
theorem transportRequest_not_meant {verify : Bool} {o : CallObject} (h : o.meant = none)
    (c : WasmCache) :
    transportRequest evm spec db verify "eth_call" o c = (c, .error .syntaxError)
      ∨ transportRequest evm spec db verify "eth_call" o c = (c, .error (.client (.server 400))) := by
  rw [transportRequest, if_pos rfl]
  cases hvalue : o.value.mapM Js.bigInt with
  | none => exact .inl rfl
  | some value =>
      rw [CallObject.meant_eq hvalue] at h
      exact .inr (by simp only [call_not_meant h])

end Answers

/--
**An `eth_call` is answered exactly.** Over a client that trusts the server, whatever it
has cached, an `eth_call` is answered with the output of the call it means if that
succeeds on the server's database, is rejected with the output if it reverts or halts, and
is rejected with something else if it comes to nothing there or means no call. A request
that means none leaves the client as it was.
-/
theorem transportRequest_exact (evm : Evm) (spec : ChainSpec) {db : StateDb} (hdb : db.WellFormed)
    (o : CallObject) (c : WasmCache) :
    let answered := transportRequest evm spec db false "eth_call" o c
    (∀ text, answered.2 = .ok text ↔ ∃ call ran, o.meant = some call
        ∧ db.outcome evm spec call = some ran ∧ ran.success = true ∧ text = bytesToHex ran.result)
      ∧ (∀ text, answered.2 = .error (.message text) ↔ ∃ call ran, o.meant = some call
        ∧ db.outcome evm spec call = some ran ∧ ran.success = false
        ∧ text = s!"eth_call reverted: {bytesToHex ran.result}")
      ∧ (o.meant = none → answered.1 = c) := by
  intro answered
  cases hmeant : o.meant with
  | none =>
      rcases @transportRequest_not_meant evm spec db false o hmeant c with h | h
      · simp [answered, h]
      · simp [answered, h]
  | some call =>
      rcases @transportRequest_meant evm spec db hdb o call hmeant c with
        ⟨ran, houtcome, h⟩ | ⟨hnone, e, h⟩
      · have hresult : answered.2 = transportOutcome ran := h
        refine ⟨fun text => ⟨fun ht => ?_, ?_⟩, fun text => ⟨fun ht => ?_, ?_⟩, nofun⟩
        · rw [hresult, transportOutcome] at ht
          split at ht
          · rename_i hsuccess
            exact ⟨call, ran, rfl, houtcome, hsuccess, (Except.ok.inj ht).symm⟩
          · cases ht
        · rintro ⟨_, ran', ⟨⟩, houtcome', hsuccess, rfl⟩
          -- the call is run once, so its outcome is this one
          obtain rfl := Option.some.inj (houtcome.symm.trans houtcome')
          rw [hresult, transportOutcome, if_pos hsuccess]
        · rw [hresult, transportOutcome] at ht
          split at ht
          · cases ht
          · rename_i hsuccess
            injection ht with ht
            injection ht with ht
            exact ⟨call, ran, rfl, houtcome, Bool.eq_false_iff.mpr hsuccess, ht.symm⟩
        · rintro ⟨_, ran', ⟨⟩, houtcome', hsuccess, rfl⟩
          obtain rfl := Option.some.inj (houtcome.symm.trans houtcome')
          rw [hresult, transportOutcome, hsuccess, if_neg Bool.false_ne_true]
      · simp [answered, h, hnone]

/-- A call of the contract that returns the block number, the way viem puts it. -/
def numberCall : CallObject where
  toAddr := "0x000000000000000000000000000000000000000c"
  data := some "0x"
  value := some "0x0"

/-- It answers the head. -/
theorem transportRequest_exact_number :
    (transportRequest (.small smallKeccak256) ethereumMainnet numberDb false "eth_call" numberCall
        .new).2
      = .ok "0x0000000000000000000000000000000000000000000000000000000000000005" := by
  have hdb : numberDb.WellFormed := StateDb.wellFormed_commit StateDb.wellFormed_empty _
  have hmeant : numberCall.meant = some ⟨0xC, 0, [], 0⟩ := by decide
  have houtcome : numberDb.outcome (.small smallKeccak256) ethereumMainnet ⟨0xC, 0, [], 0⟩
      = some (numberOutcome 5) := by decide +kernel
  exact ((transportRequest_exact (.small smallKeccak256) ethereumMainnet hdb numberCall .new).1
    _).mpr ⟨_, _, hmeant, houtcome, rfl, by decide⟩

end EvmState
