import EvmState.Proof.Line
import EvmState.Validation.Rpc

/-!
# What a node reads in a request

A request body is the JSON text of an object (`bodyStr_eq`), so whatever JSON library
reads it, the parameters arrive as the strings that were put between the quotes. By
the rules of JSON-RPC a parameter is one `0x` and digits. Addresses and blocks are
printed that way. A slot is not: its own marker comes behind the one of the format
string, so no request for storage is read as one.
-/

namespace EvmState

open Json (Doc)

/-! ## Reading a request -/

/-- A parameter by the rules of JSON-RPC: one `0x`, then digits and nothing else. -/
def readParam (n : Nat) (d : Doc) : Option (BitVec n) :=
  match d.asStr.map String.toList with
  | some ('0' :: 'x' :: c :: cs) => (Radix.readDigits 16 (c :: cs)).bind (fits n)
  | _ => none

/-- The question that a method and its parameters put. -/
def readCall (method : String) (params : List Doc) : Option EthCall :=
  let onAccount (question : Address → U64 → EthCall) : Option EthCall :=
    match params with
    | [address, block] =>
        (readParam 160 address).bind fun a => (readParam 64 block).map fun b => question a b
    | _ => none
  if method = "eth_getBalance" then onAccount .getBalance
  else if method = "eth_getTransactionCount" then onAccount .getTransactionCount
  else if method = "eth_getCode" then onAccount .getCode
  else if method = "eth_getStorageAt" then
    match params with
    | [address, slot, block] =>
        (readParam 160 address).bind fun a => (readParam 256 slot).bind fun s =>
          (readParam 64 block).map fun b => .getStorageAt a s b
    | _ => none
  else none

/-- What a node is asked for by a request body. -/
def readRequest (body : Doc) : Option EthCall :=
  match (body.get "method").bind Doc.asStr, body.get "params" with
  | some method, some (.array params) => readCall method params
  | _, _ => none

/-! ## The body as an object -/

/-- The parameters, as the strings they are in JSON. -/
def EthCall.args : EthCall → List String
  | .getBalance address block => [Address.toHex address, marked (Nat.toDigits 16 block.toNat)]
  | .getTransactionCount address block =>
      [Address.toHex address, marked (Nat.toDigits 16 block.toNat)]
  | .getCode address block => [Address.toHex address, marked (Nat.toDigits 16 block.toNat)]
  | .getStorageAt address slot block =>
      [Address.toHex address, marked (B256.toHex slot).toList,
        marked (Nat.toDigits 16 block.toNat)]

/-- The members of a request. -/
def requestMembers (method : String) (args : List String) : List (String × Doc) :=
  [("jsonrpc", .str "2.0"), ("id", .num 1), ("method", .str method),
    ("params", .array (args.map Doc.str))]

theorem addressParam_eq (a : Address) :
    addressParam a = String.ofList (FlatJson.renderString (Address.toHex a)) := by
  simp [← String.toList_inj, addressParam, FlatJson.renderString, Address.toHex, fixedHex, marked]

theorem blockParam_eq (b : U64) : blockParam b
    = String.ofList (FlatJson.renderString (marked (Nat.toDigits 16 b.toNat))) := by
  simp [← String.toList_inj, blockParam, FlatJson.renderString, marked]

theorem slotParam_eq (s : B256) : slotParam s
    = String.ofList (FlatJson.renderString (marked (B256.toHex s).toList)) := by
  simp [← String.toList_inj, slotParam, FlatJson.renderString, marked]

/-- The parameters are JSON strings. -/
theorem EthCall.params_eq (q : EthCall) :
    q.params = q.args.map fun s => String.ofList (FlatJson.renderString s) := by
  cases q <;> simp [params, args, addressParam_eq, blockParam_eq, slotParam_eq]

/-- The text of the object. -/
theorem render_requestMembers (method : String) (args : List String) :
    Json.render (.object (requestMembers method args))
      = "\x7b\"jsonrpc\":\"2.0\",\"id\":1,\"method\":\"".toList ++ method.toList
        ++ "\",\"params\":[".toList ++ [','].intercalate (args.map FlatJson.renderString)
        ++ "]\x7d".toList := by
  have hone : Nat.toDigits 10 1 = ['1'] := by decide
  unfold requestMembers
  simp only [Json.render, Json.renderMembers, Json.render_array_str]
  simp [FlatJson.renderScalar, FlatJson.renderString, hone]

/-- **The body is the text of an object.** -/
theorem bodyStr_eq (method : String) (args : List String) :
    bodyStr method (args.map fun s => String.ofList (FlatJson.renderString s))
      = String.ofList (Json.render (.object (requestMembers method args))) := by
  have hargs : (args.map fun s => String.ofList (FlatJson.renderString s)).map String.toList
      = args.map FlatJson.renderString := by
    rw [List.map_map]
    exact List.map_congr_left fun s _ => String.toList_ofList
  have hcomma : ",".toList = [','] := by decide
  unfold bodyStr
  rw [render_requestMembers, ← String.toList_inj, String.toList_ofList]
  simp only [String.toList_append, String.toList_intercalate, hargs, hcomma]

theorem plainString_marked_toHex (s : B256) :
    FlatJson.plainString (marked (B256.toHex s).toList) = true := by
  rw [FlatJson.plainString, marked, String.toList_ofList, List.all_cons, List.all_cons]
  have hslot : FlatJson.plainString (B256.toHex s) = true := SnapshotEntry.plainString_fixedHex 64 s
  rw [FlatJson.plainString] at hslot
  rw [hslot]
  decide

/-- Nothing in a request needs an escape. -/
theorem plainMembers_request (q : EthCall) :
    Json.plainMembers (requestMembers q.method q.args) = true := by
  -- names and numbers alike are plain text: no character of them needs an escape
  have hnames : ∀ s ∈ ["jsonrpc", "2.0", "id", "method", "params", "eth_getBalance",
      "eth_getTransactionCount", "eth_getCode", "eth_getStorageAt"],
      FlatJson.plainString s = true := by decide
  simp only [List.forall_mem_cons] at hnames
  have hblock : ∀ b : U64, FlatJson.plainString (marked (Nat.toDigits 16 b.toNat)) = true :=
    fun b => SnapshotEntry.plainString_marked fun _ hc =>
      Radix.digitVal_of_toDigits (by omega) (by omega) hc
  have haddress : ∀ a : Address, FlatJson.plainString (Address.toHex a) = true :=
    fun a => SnapshotEntry.plainString_fixedHex 40 a
  cases q <;>
    simp [requestMembers, EthCall.method, EthCall.args, Json.plainMembers, Json.plain,
      Json.plainItems, Json.plainScalar, hnames, hblock, haddress, plainString_marked_toHex]

/-- What is posted, whatever reads the body. -/
theorem fromStr_bodyStr {fromStr : String → Option Doc} (hjson : Json.Reads fromStr) (q : EthCall) :
    fromStr (bodyStr q.method q.params) = some (.object (requestMembers q.method q.args)) := by
  rw [q.params_eq, bodyStr_eq, hjson _ (plainMembers_request q)]

/-! ## Reading the parameters -/

theorem readParam_marked {n : Nat} {cs : List Char} (h : cs ≠ []) :
    readParam n (.str (marked cs)) = (Radix.readDigits 16 cs).bind (fits n) := by
  cases cs with
  | nil => exact absurd rfl h
  | cons c cs => simp [readParam, Doc.asStr, marked]

theorem readParam_fixedHex {w n : Nat} (hw : 0 < w) (hn : 2 ^ n = 16 ^ w) (x : BitVec n) :
    readParam n (.str (fixedHex w x)) = some x := by
  have hlen : (Radix.padDigits w 16 x.toNat).length = w :=
    Radix.length_padDigits (by omega) hw (hn ▸ x.isLt)
  have hne : Radix.padDigits w 16 x.toNat ≠ [] := by
    intro h
    rw [h, List.length_nil] at hlen
    omega
  rw [fixedHex, readParam_marked hne, Radix.readDigits_padDigits (by omega) (by omega),
    Option.bind_some, fits_toNat]

theorem readParam_address (a : Address) : readParam 160 (.str (Address.toHex a)) = some a :=
  readParam_fixedHex (by omega) (by omega) a

theorem readParam_block (b : U64) :
    readParam 64 (.str (marked (Nat.toDigits 16 b.toNat))) = some b := by
  rw [readParam_marked Nat.toDigits_ne_nil, Radix.readDigits_toDigits (by omega) (by omega),
    Option.bind_some, fits_toNat]

/-- A slot arrives with a second marker, which is no digit. -/
theorem readParam_slot (s : B256) : readParam 256 (.str (marked (B256.toHex s).toList)) = none := by
  have htext : (B256.toHex s).toList = '0' :: 'x' :: Radix.padDigits 64 16 s.toNat := by
    rw [B256.toHex, fixedHex, marked, String.toList_ofList]
  have hzero : Radix.digitVal '0' = some 0 := by decide
  have hmarker : Radix.digitVal 'x' = some 33 := by decide
  rw [readParam_marked (by simp [htext]), htext]
  simp [Radix.readDigits, Radix.readFrom, hzero, hmarker]

/-- What a node makes of the posted object. -/
theorem readRequest_members (q : EthCall) :
    readRequest (.object (requestMembers q.method q.args))
      = if q.method = "eth_getStorageAt" then none else some q := by
  cases q <;>
    simp [readRequest, readCall, requestMembers, Doc.get, Doc.asStr, EthCall.method, EthCall.args,
      readParam_address, readParam_block, readParam_slot]

/--
**Requests denote what was asked, except for storage.** A node that reads a request
body by the rules of JSON-RPC is asked for exactly the address and block of a
balance, a nonce or a code, and for nothing where a slot was meant.
-/
theorem readRequest_bodyStr_iff {fromStr : String → Option Doc} (hjson : Json.Reads fromStr)
    (q : EthCall) :
    (fromStr (bodyStr q.method q.params)).bind readRequest = some q
      ↔ q.method ≠ "eth_getStorageAt" := by
  rw [fromStr_bodyStr hjson, Option.bind_some, readRequest_members]
  by_cases h : q.method = "eth_getStorageAt"
  · simp [h]
  · simp [h]

/-- The balance of an account at block 100 is asked for as such. -/
theorem readRequest_bodyStr_balance :
    (Json.parse (bodyStr "eth_getBalance" [addressParam 0xc0ffee, blockParam 100])).bind readRequest
      = some (.getBalance 0xc0ffee 100) :=
  (readRequest_bodyStr_iff Json.parse_render (.getBalance 0xc0ffee 100)).mpr (by decide)

/-- Slot 1 of an account at block 200 is not. -/
theorem readRequest_bodyStr_storage :
    (Json.parse (bodyStr "eth_getStorageAt"
        [addressParam 0xc0ffee, slotParam 1, blockParam 200])).bind readRequest
      ≠ some (.getStorageAt 0xc0ffee 1 200) := by
  have hbody := fromStr_bodyStr Json.parse_render (.getStorageAt 0xc0ffee 1 200)
  have hread := readRequest_members (.getStorageAt 0xc0ffee 1 200)
  simp only [EthCall.method, EthCall.params] at hbody hread
  rw [hbody, Option.bind_some, hread]
  simp

/-! ## Reading the answer -/

theorem resultU256_toHex (v : U256) : resultU256 (.str v.toHex) = .ok v := by
  have hread := parseU256Hex_toHex v
  rw [parseU256Hex] at hread
  simp only [resultU256, Doc.asStr, hread]

/-- A slot is answered with all of its digits. -/
theorem resultU256_toHex_padded (v : U256) : resultU256 (.str (B256.toHex v)) = .ok v := by
  have hdigits : Radix.readDigits 16 (Radix.padDigits 64 16 v.toNat) = some v.toNat :=
    Radix.readDigits_padDigits (by omega) (by omega) 64 v.toNat
  have hplain : '_' ∉ Radix.padDigits 64 16 v.toNat :=
    Radix.notMem_of_readDigits (by decide) hdigits
  have hread : U256.fromStrRadix (hexBody (B256.toHex v)) 16 = some v := by
    rw [B256.toHex, fixedHex, hexBody_marked, U256.fromStrRadix, filter_of_notMem hplain,
      hdigits, Option.bind_some, fits_toNat]
  simp only [resultU256, Doc.asStr, hread]

theorem resultU64_toDigits (v : U64) :
    resultU64 (.str (marked (Nat.toDigits 16 v.toNat))) = .ok v := by
  simp only [resultU64, Doc.asStr, hexBody_marked, U64.fromStrRadix_toDigits]

theorem resultBytes_bytesToHex (bs : Bytes) : resultBytes (.str (bytesToHex bs)) = .ok bs := by
  simp only [resultBytes, Doc.asStr, SnapshotEntry.hexDecode_bytesToHex]

/-! ## Replies to a posted body -/

/-- The body that is posted for a question. -/
def EthCall.body (q : EthCall) : Doc := .object (requestMembers q.method q.args)

namespace EthRpcClient

variable {client : EthRpcClient} {q : EthCall} {text : String}

/-- What is posted for a question is replied to with this result. -/
def Replies (client : EthRpcClient) (q : EthCall) (text : String) : Prop :=
  ∃ resp, client.post q.body = .ok resp ∧ resp.get "error" = none
    ∧ resp.get "result" = some (.str text)

/-- What is posted for a question is replied to with an error, if at all. -/
def Refuses (client : EthRpcClient) (q : EthCall) : Prop :=
  ∀ resp, client.post q.body = .ok resp → ∃ error, resp.get "error" = some error

/-- Nothing is both. -/
theorem Refuses.not_replies (h : client.Refuses q) : ¬ client.Replies q text := by
  rintro ⟨resp, hpost, herror, _⟩
  obtain ⟨error, hsome⟩ := h resp hpost
  rw [herror] at hsome
  cases hsome

/-- A question that is replied to has the result of the response. -/
theorem ask_of_replies (hjson : Json.Reads client.fromStr) (h : client.Replies q text) :
    client.ask q = .ok (.str text) := by
  obtain ⟨resp, hpost, herror, hresult⟩ := h
  rw [EthCall.body] at hpost
  rw [ask, call, fromStr_bodyStr hjson]
  simp only [hpost, responseResult, herror, hresult]

/-- A question that is refused fails. -/
theorem ask_of_refuses (hjson : Json.Reads client.fromStr) (h : client.Refuses q) :
    ∃ e, client.ask q = .error e := by
  rw [ask, call, fromStr_bodyStr hjson]
  cases hpost : client.post (.object (requestMembers q.method q.args)) with
  | error e => exact ⟨e, by simp only [hpost]⟩
  | ok resp =>
      obtain ⟨error, herror⟩ := h resp hpost
      refine ⟨.rpc (((error.get "message").bind Doc.asStr).getD "unknown RPC error"), ?_⟩
      simp only [hpost, responseResult, herror]

/-- A slot whose request is replied to. -/
theorem getStorageAt_of_replies (hjson : Json.Reads client.fromStr) {a : Address} {s : B256}
    {block : U64} {value : U256} (h : client.Replies (.getStorageAt a s block) (B256.toHex value)) :
    client.rpc.getStorageAt a s block = .ok value := by
  show (client.ask (.getStorageAt a s block)).bind resultU256 = _
  rw [ask_of_replies hjson h]
  exact resultU256_toHex_padded value

/-- A slot whose request is refused. -/
theorem getStorageAt_of_refuses (hjson : Json.Reads client.fromStr) {a : Address} {s : B256}
    {block : U64} (h : client.Refuses (.getStorageAt a s block)) :
    ∃ e, client.rpc.getStorageAt a s block = .error e := by
  obtain ⟨e, he⟩ := ask_of_refuses hjson h
  refine ⟨e, ?_⟩
  show (client.ask (.getStorageAt a s block)).bind resultU256 = _
  rw [he]
  rfl

/-- The node refuses what it cannot read by the rules of JSON-RPC. -/
def ByTheRules (client : EthRpcClient) : Prop :=
  ∀ body, readRequest body = none →
    ∀ resp, client.post body = .ok resp → ∃ error, resp.get "error" = some error

/-- **Such a node refuses every request for storage.** -/
theorem ByTheRules.refuses (h : client.ByTheRules) (a : Address) (s : B256) (block : U64) :
    client.Refuses (.getStorageAt a s block) :=
  h _ (by rw [EthCall.body, readRequest_members]; rfl)

end EthRpcClient

end EvmState
