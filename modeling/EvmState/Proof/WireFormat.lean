import EvmState.Api.Body
import EvmState.Client.Calls
import EvmState.Proof.Line
import EvmState.Proof.Remote
import EvmState.Proof.StateDb

/-!
# One wire format

What the server says is plain text: digits behind a marker under names without
quotes. So every body arrives as it was sent, whatever JSON library is at either end
(`read_respond`), and what it says is the database's: the value that was asked for,
or the entries of a slice, each under the key the on-demand path files it under.
Requests are as plain, also those a WASM caller spells out, as far as they parse.
-/

namespace EvmState

open Std
open Json (Doc)

/-! ## What the server writes is plain -/

theorem of_map_ok {α β ε : Type} {x : Except ε α} {f : α → β} {y : β} (h : x.map f = .ok y) :
    ∃ a, y = f a := by
  cases x with
  | error e => cases h
  | ok a => exact ⟨a, (Except.ok.inj h).symm⟩

theorem plainMembers_ofInfo (info : AccountInfo) :
    Json.plainMembers (AccountResponse.ofInfo info).members = true := by
  have hnames : ∀ s ∈ ["nonce", "balance", "code_hash"], FlatJson.plainString s = true := by decide
  simp only [List.forall_mem_cons] at hnames
  simp [AccountResponse.members, AccountResponse.ofInfo, Json.plainMembers, Json.plain,
    Json.plainScalar, hnames, B256.toHex, info.nonce.isLt]

/-- The bodies of the read endpoints are printed from the database. -/
theorem ofInfo_of_getAccount {db : StateDb} {addr : String} {r : AccountResponse}
    (h : Api.getAccount db addr = .ok r) : ∃ info, r = .ofInfo info := by
  unfold Api.getAccount at h
  split at h
  · cases h
  · obtain ⟨info, rfl⟩ := of_map_ok h
    exact ⟨info, rfl⟩

theorem value_of_getStorage {db : StateDb} {addr slot : String} {r : StorageResponse}
    (h : Api.getStorage db addr slot = .ok r) : ∃ v : U256, r = ⟨v.toHex⟩ := by
  unfold Api.getStorage at h
  split at h
  · cases h
  split at h
  · cases h
  · obtain ⟨v, rfl⟩ := of_map_ok h
    exact ⟨v, rfl⟩

theorem code_of_getCode {db : StateDb} {addr : String} {r : CodeResponse}
    (h : Api.getCode db addr = .ok r) : ∃ code, r = ⟨bytesToHex code⟩ := by
  unfold Api.getCode at h
  split at h
  · cases h
  split at h
  · cases h
  · obtain ⟨code, rfl⟩ := of_map_ok h
    exact ⟨code, rfl⟩

theorem plainMembers_storage (v : U256) :
    Json.plainMembers (StorageResponse.members ⟨v.toHex⟩) = true := by
  have hname : FlatJson.plainString "value" = true := by decide
  simp [StorageResponse.members, Json.plainMembers, Json.plain, Json.plainScalar, hname]

theorem plainMembers_code (code : Bytes) :
    Json.plainMembers (CodeResponse.members ⟨bytesToHex code⟩) = true := by
  have hname : FlatJson.plainString "code" = true := by decide
  simp [CodeResponse.members, Json.plainMembers, Json.plain, Json.plainScalar, hname]

@[simp] theorem plainString_addressHex (a : Address) : FlatJson.plainString a.toHex = true :=
  SnapshotEntry.plainString_fixedHex 40 a

@[simp] theorem plainString_hashHex (h : B256) : FlatJson.plainString (B256.toHex h) = true :=
  SnapshotEntry.plainString_fixedHex 64 h

/-- The slice is made of addresses, hashes, quantities and bytes. -/
theorem plainMembers_stateSlice {db : StateDb} {acc : Accesses} {slice : StateSlice}
    (h : stateSlice db acc = .ok slice) : Json.plainMembers slice.members = true := by
  obtain ⟨storage, hst, rfl⟩ := stateSlice_ok h
  have hnames : ∀ s ∈ ["accounts", "storage", "code"], FlatJson.plainString s = true := by decide
  simp only [List.forall_mem_cons] at hnames
  have haccounts : Json.plainMembers (mapMembers (fun r => .object r.members)
      (sliceAccounts db acc)) = true := by
    -- every text of the slice is hexadecimal
    refine plainMembers_map fun k r hr => ?_
    obtain ⟨a, info, _, _, rfl, rfl⟩ := sliceAccounts_getElem?.mp hr
    exact ⟨plainString_addressHex a, by rw [Json.plain, plainMembers_ofInfo]⟩
  have hstorage : Json.plainMembers (mapMembers (fun m => .object (mapMembers Doc.str m))
      storage) = true := by
    refine plainMembers_map fun k m hm => ?_
    obtain ⟨a, slots, _, _, hp⟩ := (sliceStorage_getElem? hst).mp hm
    obtain ⟨rfl, hslots⟩ := sliceSlots_getElem? hp
    refine ⟨plainString_addressHex a, ?_⟩
    rw [Json.plain]
    refine plainMembers_map fun slot text htext => ?_
    obtain ⟨s, v, _, _, rfl, rfl⟩ := (hslots slot text).mp htext
    exact ⟨plainString_hashHex s, SnapshotEntry.plainString_toHex v⟩
  have hcode : Json.plainMembers (mapMembers Doc.str (sliceCode db acc)) = true := by
    refine plainMembers_map fun k text htext => ?_
    obtain ⟨_, info, raw, _, _, _, _, _, rfl, rfl⟩ := sliceCode_getElem?.mp htext
    exact ⟨plainString_hashHex _, SnapshotEntry.plainString_bytesToHex raw⟩
  simp [StateSlice.members, Json.plainMembers, Json.plain, hnames, haccounts, hstorage, hcode]

/-- So is the access list. -/
theorem plain_accessList (acc : Accesses) : ∀ e ∈ acc.toList.map fun e =>
    Doc.object (AccessListEntry.members ⟨e.1.toHex, e.2.toList.map B256.toHex⟩),
    Json.plain e = true := by
  have hnames : ∀ s ∈ ["address", "slots"], FlatJson.plainString s = true := by decide
  simp only [List.forall_mem_cons] at hnames
  intro d hd
  obtain ⟨e, _, rfl⟩ := List.mem_map.mp hd
  have hslots : Json.plainItems (e.2.toList.map (Doc.str ∘ B256.toHex)) = true := by
    refine Json.plainItems_iff.mpr fun d hd => ?_
    obtain ⟨s, _, rfl⟩ := List.mem_map.mp hd
    simp [Json.plain, Json.plainScalar]
  simp [AccessListEntry.members, Json.plain, Json.plainMembers, Json.plainScalar, hnames, hslots]

theorem plainString_outputHex (r : ExecutionResult) : FlatJson.plainString r.outputHex = true := by
  unfold ExecutionResult.outputHex
  cases r.output with
  | none => decide
  | some o => exact SnapshotEntry.plainString_bytesToHex o

theorem plainMembers_prefetch {evm : Evm} {db : StateDb} {spec : ChainSpec} {call : ViewCall}
    {resp : PrefetchResponse} (h : prefetch evm db spec call = .ok resp) :
    Json.plainMembers resp.members = true := by
  have hnames : ∀ s ∈ ["result", "success", "access_list", "state_slice"],
      FlatJson.plainString s = true := by decide
  simp only [List.forall_mem_cons] at hnames
  obtain ⟨r, slice, _, hslice, rfl, hresult, _, acc, hacc⟩ := prefetch_ok h
  have hentries : Json.plainItems (resp.accessList.map fun e => .object e.members) = true := by
    rw [hacc, List.map_map]
    exact Json.plainItems_iff.mpr (plain_accessList acc)
  simp [PrefetchResponse.members, Json.plainMembers, Json.plain, Json.plainScalar, hnames, hentries,
    hresult, plainString_outputHex, plainMembers_stateSlice hslice]

/-! ## So is what a client asks -/

/-- A request without quotes in its fields. -/
structure PrefetchRequest.Plain (req : PrefetchRequest) : Prop where
  toAddr : FlatJson.plainString req.toAddr = true
  data : ∀ s, req.data = some s → FlatJson.plainString s = true
  fromAddr : ∀ s, req.fromAddr = some s → FlatJson.plainString s = true
  value : ∀ s, req.value = some s → FlatJson.plainString s = true

theorem plainMembers_option {name : String} {v : Option String}
    (hname : FlatJson.plainString name = true) (h : ∀ s, v = some s → FlatJson.plainString s = true) :
    ∀ m ∈ optionMember name v, FlatJson.plainString m.1 = true ∧ Json.plain m.2 = true := by
  intro m hm
  cases v with
  | none => cases hm
  | some s =>
      obtain rfl := List.mem_singleton.mp hm
      exact ⟨hname, by simp [Json.plain, Json.plainScalar, h s rfl]⟩

theorem PrefetchRequest.Plain.members {req : PrefetchRequest} (h : req.Plain) :
    Json.plainMembers req.members = true := by
  have hnames : ∀ s ∈ ["to", "data", "from", "value"], FlatJson.plainString s = true := by decide
  simp only [List.forall_mem_cons] at hnames
  obtain ⟨hto, hdata, hfrom, hvalue, _⟩ := hnames
  refine Json.plainMembers_iff.mpr fun m hm => ?_
  rw [PrefetchRequest.members, List.mem_cons, List.mem_append, List.mem_append] at hm
  rcases hm with rfl | (hm | hm) | hm
  · exact ⟨hto, by simp [Json.plain, Json.plainScalar, h.toAddr]⟩
  · exact plainMembers_option hdata h.data m hm
  · exact plainMembers_option hfrom h.fromAddr m hm
  · exact plainMembers_option hvalue h.value m hm

/-- A plain request arrives as it was sent. -/
theorem PrefetchRequest.Plain.read {req : PrefetchRequest} (h : req.Plain)
    {json : String → Option Doc} (hjson : Json.Reads json) :
    (json (bodyText req.members)).bind PrefetchRequest.ofDoc = some req := by
  rw [bodyText, hjson _ h.members, Option.bind_some, PrefetchRequest.ofDoc_members]

namespace RemoteDb

theorem plain_prefetchRequest (toAddr : Address) (calldata : Bytes) (fromAddr : Option Address)
    (value : Option U256) : (prefetchRequest toAddr calldata fromAddr value).Plain where
  toAddr := plainString_addressHex toAddr
  data := by
    intro s hs
    obtain rfl := Option.some.inj hs
    exact SnapshotEntry.plainString_bytesToHex calldata
  fromAddr := by
    intro s hs
    obtain ⟨a, _, rfl⟩ := Option.map_eq_some_iff.mp hs
    exact plainString_addressHex a
  value := by
    intro s hs
    obtain ⟨v, _, rfl⟩ := Option.map_eq_some_iff.mp hs
    exact SnapshotEntry.plainString_toHex v

end RemoteDb

/-! ### Out of WASM -/

theorem plainString_of_hexBody {s : String} (h : ∀ c ∈ hexBody s, FlatJson.plainChar c = true) :
    FlatJson.plainString s = true := by
  rw [FlatJson.plainString, List.all_eq_true]
  unfold hexBody at h
  split at h
  · rename_i cs hcs
    rw [hcs]
    exact SnapshotEntry.plainChar_marker h
  · exact h

theorem plainChar_of_readDigits {cs : List Char} {n : Nat} (h : Radix.readDigits 16 cs = some n) :
    ∀ c ∈ cs, FlatJson.plainChar c = true := by
  intro c hc
  obtain ⟨d, hd, _⟩ := Radix.digitVal_of_readFrom h c hc
  exact FlatJson.plainChar_of_digitVal hd

theorem plainChar_of_decodeHex : ∀ {cs : List Char} {bs : Bytes},
    Radix.decodeHex cs = some bs → ∀ c ∈ cs, FlatJson.plainChar c = true
  | [], _, _ => by simp
  | [_], _, h => by cases h
  | a :: b :: cs, bs, h => by
      -- the digits go in pairs
      rw [Radix.decodeHex] at h
      split at h
      · rename_i hpair hrest
        intro c hc
        rcases List.mem_append.mp (show c ∈ [a, b] ++ cs from hc) with hc | hc
        · exact plainChar_of_readDigits hpair c hc
        · exact plainChar_of_decodeHex hrest c hc
      · cases h

theorem plainString_of_parseFixed {w n : Nat} {s : String} {x : BitVec n}
    (h : parseFixed w n s = some x) : FlatJson.plainString s = true := by
  unfold parseFixed at h
  split at h
  · obtain ⟨v, hv, _⟩ := Option.bind_eq_some_iff.mp h
    exact plainString_of_hexBody (plainChar_of_readDigits hv)
  · cases h

theorem plainString_of_decodeBytes {s : String} {bs : Bytes} (h : decodeHexBytes s = some bs) :
    FlatJson.plainString s = true := by
  refine plainString_of_hexBody ?_
  unfold decodeHexBytes hexDecode at h
  split at h
  · rename_i ds hds
    rw [hds]
    exact SnapshotEntry.plainChar_marker (plainChar_of_decodeHex h)
  · exact plainChar_of_decodeHex h

theorem plainString_of_parseU256 {s : String} {v : U256} (h : parseU256Hex s = some v) :
    FlatJson.plainString s = true := by
  refine plainString_of_hexBody fun c hc => ?_
  obtain ⟨n, hn, _⟩ := Option.bind_eq_some_iff.mp h
  by_cases hskip : c = '_'
  · subst hskip
    decide
  · exact plainChar_of_readDigits hn c (List.mem_filter.mpr ⟨hc, by simpa using hskip⟩)

namespace WasmStateClient

variable {args : WasmCall} {toAddr : Address} {calldata : Bytes} {fromAddr : Option Address}
  {value : Option U256}

theorem of_mapM_address {text : Option String} (h : text.mapM Address.parse = some fromAddr) :
    text.map Address.parse = fromAddr.map some := by
  cases text with
  | none =>
      obtain rfl := Option.some.inj h
      rfl
  | some s =>
      cases ha : Address.parse s with
      | none => simp [ha] at h
      | some a =>
          have heq : some a = fromAddr := by simpa [ha] using h
          simp [ha, ← heq]

theorem of_mapM_value {text : Option String} (h : text.mapM parseU256 = .ok value) :
    text.map parseU256Hex = value.map some := by
  cases text with
  | none =>
      obtain rfl := Except.ok.inj h
      rfl
  | some s =>
      cases hv : parseU256Hex s with
      | none => simp [parseU256, hv] at h
      | some v =>
          have heq : some v = value := by simpa [parseU256, hv] using h
          simp [hv, ← heq]

/-- What a caller's strings are taken for. -/
theorem parse_ok (h : parse args = .ok (toAddr, calldata, fromAddr, value)) :
    Address.parse args.toAddr = some toAddr ∧ decodeHexBytes args.calldata = some calldata
      ∧ args.fromAddr.map Address.parse = fromAddr.map some
      ∧ args.value.map parseU256Hex = value.map some := by
  unfold parse at h
  split at h
  · cases h
  -- each part was read, in the order in which they are looked at
  rename_i ha
  split at h
  · cases h
  rename_i hbytes
  split at h
  · cases h
  rename_i hfrom
  split at h
  · cases h
  rename_i hvalue
  cases h
  refine ⟨ha, ?_, of_mapM_address hfrom, of_mapM_value hvalue⟩
  unfold decodeBytes at hbytes
  split at hbytes
  · rename_i hdecoded
    cases hbytes
    exact hdecoded
  · cases hbytes

/-- **The server takes the strings for the same.** -/
theorem parse_request (h : parse args = .ok (toAddr, calldata, fromAddr, value)) :
    (request args).parse = .ok ⟨toAddr, fromAddr.getD 0, calldata, value.getD 0⟩ := by
  obtain ⟨ha, hbytes, hfrom, hvalue⟩ := parse_ok h
  have hto : Api.parseAddress (request args).toAddr = .ok toAddr := by
    rw [request, Api.parseAddress, ha]
  have hsender : ((request args).fromAddr.map Api.parseAddress).getD (.ok 0)
      = .ok (fromAddr.getD 0) := by
    cases hs : args.fromAddr with
    | none =>
        rw [hs] at hfrom
        cases fromAddr with
        | none => simp [request, hs]
        | some a => cases hfrom
    | some s =>
        rw [hs] at hfrom
        cases fromAddr with
        | none => cases hfrom
        | some a =>
            have hparse : Address.parse s = some a := Option.some.inj hfrom
            simp [request, hs, Api.parseAddress, hparse]
  have hamount : ((request args).value.map parseU256Hex).getD (some 0) = some (value.getD 0) := by
    rw [request, hvalue]
    cases value <;> rfl
  -- calldata that is left out is empty
  have hdata : ((request args).data.map decodeHexBytes).getD (some []) = some calldata := by
    by_cases hempty : args.calldata = ""
    · rw [hempty] at hbytes
      obtain rfl : [] = calldata := Option.some.inj hbytes
      simp [request, hempty]
    · simp [request, hempty, hbytes]
  simp only [PrefetchRequest.parse, hto, hsender, hdata, hamount]

theorem plain_request (h : parse args = .ok (toAddr, calldata, fromAddr, value)) :
    (request args).Plain := by
  obtain ⟨ha, hbytes, hfrom, hvalue⟩ := parse_ok h
  constructor
  · exact plainString_of_parseFixed ha
  · intro s hs
    unfold request at hs
    -- no calldata is sent if it is empty
    split at hs
    · cases hs
    · obtain rfl := Option.some.inj hs
      exact plainString_of_decodeBytes hbytes
  · intro s hs
    have hs : args.fromAddr = some s := hs
    rw [hs] at hfrom
    cases fromAddr with
    | none => cases hfrom
    | some a => exact plainString_of_parseFixed (Option.some.inj hfrom)
  · intro s hs
    have hs : args.value = some s := hs
    rw [hs] at hvalue
    cases value with
    | none => cases hvalue
    | some v => exact plainString_of_parseU256 (Option.some.inj hvalue)

end WasmStateClient

/-! ## On demand -/

namespace RemoteDb

/-- `fetch`, from the response on the wire on; a body that does not parse is `Error::Json`. -/
def fetchText {α β : Type} (json : String → Option Doc) (ofDoc : Doc → Option α)
    (decode : α → Except ClientError β) (response : HttpResponse) : Except ClientError (Option β) :=
  match response.read json ofDoc with
  | .ok (some body) => (decode body).map some
  | .ok none => .error (.invalidResponse "JSON error")
  | .error status => if status = 404 then .ok none else .error (.server status)

/-- The text of a body is taken like the body. -/
theorem fetchText_respond {α β : Type} {json : String → Option Doc} (hjson : Json.Reads json)
    {members : α → List (String × Doc)} {ofDoc : Doc → Option α}
    (hread : ∀ v, ofDoc (.object (members v)) = some v) (decode : α → Except ClientError β)
    {r : Except AppError α} (hplain : ∀ v, r = .ok v → Json.plainMembers (members v) = true) :
    fetchText json ofDoc decode (respond members r) = fetch r decode := by
  rw [fetchText, read_respond hjson hread hplain]
  cases r <;> rfl

/-- An entry that is not cached is fetched and filed like the same entry of a slice. -/
def FiledOnDemand (db : StateDb) : CachePut → Prop
  | .account a info => ∀ c : RemoteCache, c.accounts.peek a = none →
      ∃ code, basicRef db a c = .ok (some info, put { c with code := code } (.account a info))
  | .storage a index v => ∀ c : RemoteCache, c.storage.peek (a, index) = none →
      storageRef db a index c = .ok (v, put c (.storage a index v))
  | .code h raw => ∃ a, ∀ c : RemoteCache, c.code.contains h = false →
      fetchCodeForAddress db a h c = .ok (put c (.code h raw))

theorem fetchCodeForAddress_found {db : StateDb} {a : Address} {info : AccountInfo} {raw : Bytes}
    (ha : db.getAccount a = .ok (some info)) (hraw : db.getCode info.codeHash = some raw)
    {c : RemoteCache} (hc : c.code.contains info.codeHash = false) :
    fetchCodeForAddress db a info.codeHash c
      = .ok { c with code := c.code.put info.codeHash raw } := by
  simp only [fetchCodeForAddress, hc, fetch_code ha, hraw]
  rfl

/-- **One key for one item**, whichever way it comes. -/
theorem filedOnDemand_of_filed {db : StateDb} {acc : Accesses} {p : CachePut} (h : Filed db acc p) :
    FiledOnDemand db p := by
  cases p with
  | account a info =>
      intro c hmiss
      obtain ⟨_, ha⟩ := h
      exact ⟨c.code.putAll (broughtCode db c.code (some info)), by simp only [basicRef_eq, hmiss, ha, put]⟩
  | storage a index v =>
      intro c hmiss
      obtain ⟨_, hv⟩ := h
      simp only [storageRef_eq, hmiss, hv, put]
  | code hash raw =>
      obtain ⟨⟨a, info, _, ha, rfl⟩, _, _, hraw⟩ := h
      exact ⟨a, fun c hmiss => fetchCodeForAddress_found ha hraw hmiss⟩

end RemoteDb

/-! ## Both ends together -/

/-- Server and clients mean the same by what they say, over texts that `json` reads. -/
structure WireExact (json : String → Option Doc) (evm : Evm) (spec : ChainSpec) (db : StateDb) :
    Prop where
  /-- The clients take the text of a body like the body. -/
  accountText : ∀ addr, RemoteDb.fetchText json AccountResponse.ofDoc AccountResponse.decode
    (respond AccountResponse.members (Api.getAccount db addr))
      = RemoteDb.fetch (Api.getAccount db addr) AccountResponse.decode
  storageText : ∀ addr slot, RemoteDb.fetchText json StorageResponse.ofDoc (fun r => parseU256 r.value)
    (respond StorageResponse.members (Api.getStorage db addr slot))
      = RemoteDb.fetch (Api.getStorage db addr slot) fun r => parseU256 r.value
  codeText : ∀ addr, RemoteDb.fetchText json CodeResponse.ofDoc (fun r => decodeBytes r.code)
    (respond CodeResponse.members (Api.getCode db addr))
      = RemoteDb.fetch (Api.getCode db addr) fun r => decodeBytes r.code
  prefetchText : ∀ req, (respond PrefetchResponse.members (postPrefetch evm db spec req)).read json
    PrefetchResponse.ofDoc
      = ((postPrefetch evm db spec req).map fun resp => some { resp with accessList := [] }).mapError
          AppError.status
  /-- What is fetched on demand is the item itself. -/
  account : ∀ {a o} (c : RemoteCache), db.getAccount a = .ok o →
    ∃ code, RemoteDb.fetchAccount db a c = .ok (o, { c with code := code })
  storage : ∀ {a s o}, db.getStorage a s = .ok o → RemoteDb.fetchStorage db a s = .ok (o.getD 0)
  code : ∀ {a info raw} (c : RemoteCache), db.getAccount a = .ok (some info) →
    db.getCode info.codeHash = some raw → c.code.contains info.codeHash = false →
    RemoteDb.fetchCodeForAddress db a info.codeHash c
      = .ok { c with code := c.code.put info.codeHash raw }
  /-- What a slice brings is what was recorded, in both clients. -/
  prefetch : ∀ {req call resp}, req.parse = .ok call → postPrefetch evm db spec req = .ok resp →
    ∃ (ps : List CachePut) (r : ResultAndState),
      (∀ p, p ∈ ps ↔ Filed db (call.accesses
        ((prefetchExecution evm spec db.headOrZero call).asked db.view)) p)
      ∧ (prefetchExecution evm spec db.headOrZero call).eval db.view = .ok (.ok r)
      ∧ (∀ c, RemoteDb.prefetch evm spec db req c = (ps.foldl RemoteDb.put c,
          .ok ⟨r.result.output.getD [], r.result.isSuccess⟩))
      ∧ ∀ c, WasmCache.receive c { resp with accessList := [] } = (ps.foldl WasmCache.put c,
          .ok ⟨r.result.output.getD [], r.result.isSuccess⟩)
  /-- It is filed as it would be on demand. -/
  keys : ∀ {acc p}, Filed db acc p → RemoteDb.FiledOnDemand db p
  /-- The server reads the request that was meant. -/
  request : ∀ toAddr calldata fromAddr value,
    let req := RemoteDb.prefetchRequest toAddr calldata fromAddr value
    (json (bodyText req.members)).bind PrefetchRequest.ofDoc = some req
      ∧ req.parse = .ok ⟨toAddr, fromAddr.getD 0, calldata, value.getD 0⟩
  wasmRequest : ∀ {args toAddr calldata fromAddr value},
    WasmStateClient.parse args = .ok (toAddr, calldata, fromAddr, value) →
    let req := WasmStateClient.request args
    (json (bodyText req.members)).bind PrefetchRequest.ofDoc = some req
      ∧ req.parse = .ok ⟨toAddr, fromAddr.getD 0, calldata, value.getD 0⟩

/-- **Server and clients speak one wire format**, whatever the database holds. -/
theorem wire_exact {json : String → Option Doc} (hjson : Json.Reads json) (evm : Evm)
    (spec : ChainSpec) (db : StateDb) : WireExact json evm spec db where
  accountText := by
    intro addr
    refine RemoteDb.fetchText_respond hjson AccountResponse.ofDoc_members _ fun v hv => ?_
    obtain ⟨info, rfl⟩ := ofInfo_of_getAccount hv
    exact plainMembers_ofInfo info
  storageText := by
    intro addr slot
    refine RemoteDb.fetchText_respond hjson StorageResponse.ofDoc_members _ fun v hv => ?_
    obtain ⟨value, rfl⟩ := value_of_getStorage hv
    exact plainMembers_storage value
  codeText := by
    intro addr
    refine RemoteDb.fetchText_respond hjson CodeResponse.ofDoc_members _ fun v hv => ?_
    obtain ⟨code, rfl⟩ := code_of_getCode hv
    exact plainMembers_code code
  prefetchText := by
    intro req
    refine read_respond hjson PrefetchResponse.ofDoc_members fun resp hresp => ?_
    unfold postPrefetch at hresp
    split at hresp
    · cases hresp
    · exact plainMembers_prefetch hresp
  account := by
    intro a o c h
    rw [RemoteDb.fetchAccount_eq, h]
    exact ⟨_, rfl⟩
  storage := by
    intro a s o h
    rw [RemoteDb.fetch_storage, StateDb.storageRef_eq_ok.mpr ⟨o, h, rfl⟩]
    rfl
  code := by
    intro a info raw c ha hraw hc
    exact RemoteDb.fetchCodeForAddress_found ha hraw hc
  prefetch := by
    intro req call resp hcall hpost
    have hpre := hpost
    rw [postPrefetch, hcall] at hpre
    obtain ⟨ps, r, _, hps, heval, _, _, hreceive⟩ := receive_prefetch hpre
    refine ⟨ps, r, hps, heval, fun c => ?_, fun c => hreceive WasmCache.put c⟩
    -- both clients file what the response says, in their own caches
    rw [RemoteDb.prefetch_of_ok hpost]
    exact hreceive RemoteDb.put c
  keys := fun h => RemoteDb.filedOnDemand_of_filed h
  request := by
    intro toAddr calldata fromAddr value
    exact ⟨(RemoteDb.plain_prefetchRequest toAddr calldata fromAddr value).read hjson,
      RemoteDb.parse_prefetchRequest toAddr calldata fromAddr value⟩
  wasmRequest := by
    intro args toAddr calldata fromAddr value h
    exact ⟨(WasmStateClient.plain_request h).read hjson, WasmStateClient.parse_request h⟩

/-- With one JSON library at both ends. -/
theorem wire_exact_forwarder : WireExact Json.parse (.small smallKeccak256) ethereumMainnet forwarderDb :=
  wire_exact Json.parse_render (.small smallKeccak256) ethereumMainnet forwarderDb

end EvmState
