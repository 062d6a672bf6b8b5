import EvmState.Api.Socket

/-!
# Three interfaces, one lookup

The GET handlers, the batch endpoint and the WebSocket look things up in code of their
own. What a client sees of an answer is the same in all three: what was found, or that
nothing was, that the address or the slot was invalid, or that the database failed and
how (`batchItem_seen`, `answerQuery_seen`). The batch and the WebSocket tell these apart
by the text of the error only, and the texts begin differently (`errorSeen`).
-/

namespace EvmState

open Json (Doc)

/-! ## What a client sees -/

/-- The outcomes of a lookup. -/
inductive Seen where
  | found (members : List (String × Doc))
  | notFound
  | invalidAddress
  | invalidSlot
  | databaseError (text : String)

/-- Which part of the query a complaint is about. -/
def inputSeen (text : String) : Seen :=
  if "invalid address".toList <+: text.toList then .invalidAddress else .invalidSlot

/-- The text of an error, as a client tells what it means. -/
def errorSeen (text : String) : Seen :=
  if text = "not found" then .notFound
  else if "invalid ".toList <+: text.toList then inputSeen text
  else .databaseError text

/-- An answer over HTTP; internal errors carry their text. -/
def httpSeen {α : Type} (members : α → List (String × Doc)) : Except AppError α → Seen
  | .ok v => .found (members v)
  | .error .notFound => .notFound
  | .error (.badRequest text) => inputSeen text
  | .error (.internal (.db e)) => .databaseError e.toText
  | .error (.internal (.evm _)) => .databaseError "EVM error"

def BatchResult.seen : BatchResult → Seen
  | .account r => .found r.members
  | .storage r => .found r.members
  | .code r => .found r.members
  | .notFound text => errorSeen text
  | .error text => errorSeen text

def WsPayload.seen : WsPayload → Seen
  | .result members => .found members
  | .error text => errorSeen text

/-- What the GET handler for a query answers. -/
def BatchItem.getSeen (db : StateDb) : BatchItem → Seen
  | .account addr => httpSeen AccountResponse.members (Api.getAccount db addr)
  | .storage addr slot => httpSeen StorageResponse.members (Api.getStorage db addr slot)
  | .code addr => httpSeen CodeResponse.members (Api.getCode db addr)

/-- The address a query is about, as it is written in the query. -/
def BatchItem.address : BatchItem → String
  | .account addr => addr
  | .storage addr _ => addr
  | .code addr => addr

/-- The same query over the WebSocket. -/
def BatchItem.toQuery : BatchItem → WsQuery
  | .account addr => .account addr
  | .storage addr slot => .storage addr slot
  | .code addr => .code addr

/-! ## The texts tell the kinds apart -/

theorem errorSeen_notFound : errorSeen "not found" = .notFound := if_pos rfl

theorem errorSeen_invalid {text : String} (h : "invalid ".toList <+: text.toList) :
    errorSeen text = inputSeen text := by
  have hne : text ≠ "not found" := by
    intro heq
    rw [heq] at h
    exact absurd h (by decide)
  rw [errorSeen, if_neg hne, if_pos h]

theorem inputSeen_address (addr : String) :
    inputSeen s!"invalid address: {addr}" = .invalidAddress := by
  refine if_pos ⟨": ".toList ++ addr.toList, ?_⟩
  simp [toString]

theorem errorSeen_address (addr : String) :
    errorSeen s!"invalid address: {addr}" = .invalidAddress := by
  refine (errorSeen_invalid ⟨"address: ".toList ++ addr.toList, ?_⟩).trans (inputSeen_address addr)
  simp [toString]

/-- A complaint whose ninth letter is another one is not about the address. -/
theorem inputSeen_slot_of {text : String} (h : text.toList[8]? ≠ some 'a') :
    inputSeen text = .invalidSlot := by
  refine if_neg ?_
  rintro ⟨rest, hrest⟩
  rw [← hrest] at h
  exact h rfl

theorem inputSeen_b256 (slot : String) : inputSeen s!"invalid B256: {slot}" = .invalidSlot := by
  refine inputSeen_slot_of ?_
  simp [toString]

theorem errorSeen_slot (slot : String) : errorSeen s!"invalid slot: {slot}" = .invalidSlot := by
  refine (errorSeen_invalid ⟨"slot: ".toList ++ slot.toList, ?_⟩).trans (inputSeen_slot_of ?_)
  · simp [toString]
  · simp [toString]

theorem toList_prefix_append {s t : String} (h : s.toList <+: t.toList) (u : String) :
    s.toList <+: (t ++ u).toList := by
  rw [String.toList_append]
  exact h.trans (List.prefix_append _ _)

/-- Texts that begin with different letters are different, and so are their beginnings. -/
theorem head?_of_prefix {p t : List Char} {c : Char} (hp : p <+: t) (hc : p.head? = some c) :
    t.head? = some c := by
  obtain ⟨u, rfl⟩ := hp
  rw [List.head?_append, hc]
  rfl

/-- How the errors of the database begin. -/
theorem head?_toText (e : DbError) :
    e.toText.toList.head? = some 'f' ∨ e.toText.toList.head? = some 'u' := by
  cases e with
  | accountDecode e =>
      left
      have hp : "failed to decode account: invalid account byte length: expected ".toList
          <+: (DbError.accountDecode e).toText.toList :=
        toList_prefix_append (toList_prefix_append (toList_prefix_append (List.prefix_refl _) _) _) _
      exact head?_of_prefix hp rfl
  | invalidStorageValue len =>
      right
      have hp : "unexpected value length for storage slot: expected 32, got ".toList
          <+: (DbError.invalidStorageValue len).toText.toList :=
        toList_prefix_append (List.prefix_refl _) _
      exact head?_of_prefix hp rfl
  | invalidHeadBlock len =>
      right
      have hp : "unexpected value length for head_block: expected 8, got ".toList
          <+: (DbError.invalidHeadBlock len).toText.toList :=
        toList_prefix_append (List.prefix_refl _) _
      exact head?_of_prefix hp rfl

/-- No error of the database reads as one of the others. -/
theorem errorSeen_db (e : DbError) : errorSeen e.toText = .databaseError e.toText := by
  -- no text of a database error is read as another kind: it starts with `f` or `u`,
  -- the texts of the other kinds with `n` or `i`
  have hne : e.toText ≠ "not found" := by
    intro heq
    have hhead := head?_toText e
    rw [heq] at hhead
    exact absurd hhead (by decide)
  have hno : ¬ "invalid ".toList <+: e.toText.toList := by
    intro h
    have hi : e.toText.toList.head? = some 'i' := head?_of_prefix h rfl
    rcases head?_toText e with hhead | hhead
    · rw [hhead] at hi
      exact absurd hi (by decide)
    · rw [hhead] at hi
      exact absurd hi (by decide)
  rw [errorSeen, if_neg hne, if_neg hno]

/-! ## The three lookups -/

/-- The address is read before the slot, so a bad one is complained about first. -/
theorem getSeen_of_invalidAddress (db : StateDb) {item : BatchItem}
    (h : Address.parse item.address = none) : item.getSeen db = .invalidAddress := by
  cases item with
  | account addr =>
      rw [BatchItem.address] at h
      rw [BatchItem.getSeen, Api.getAccount, Api.parseAddress, h]
      exact inputSeen_address addr
  | storage addr slot =>
      rw [BatchItem.address] at h
      rw [BatchItem.getSeen, Api.getStorage, Api.parseAddress, h]
      exact inputSeen_address addr
  | code addr =>
      rw [BatchItem.address] at h
      rw [BatchItem.getSeen, Api.getCode, Api.parseAddress, h]
      exact inputSeen_address addr

/-- Behind a good address a bad slot is complained about, whatever is stored. -/
theorem getSeen_of_invalidSlot (db : StateDb) {addr slot : String} {address : Address}
    (haddr : Address.parse addr = some address) (hslot : B256.parse slot = none) :
    (BatchItem.storage addr slot).getSeen db = .invalidSlot := by
  rw [BatchItem.getSeen, Api.getStorage, Api.parseAddress, Api.parseB256, haddr, hslot]
  exact inputSeen_b256 slot

/-- The place of an item in the batch. -/
def placed : Except String BatchResult → BatchResult
  | .ok result => result
  | .error msg => .error msg

/-- What the batch puts in the place of an item is what its GET handler answers. -/
theorem batchItem_seen (db : StateDb) (item : BatchItem) :
    (placed (Api.batchItem db item)).seen = item.getSeen db := by
  cases item with
  | account addr =>
      rw [Api.batchItem, BatchItem.getSeen, Api.getAccount, Api.parseAddress]
      cases Address.parse addr with
      | none => exact (errorSeen_address addr).trans (inputSeen_address addr).symm
      | some address =>
          dsimp only
          cases db.getAccount address with
          | error e => exact errorSeen_db e
          | ok found =>
              cases found with
              | none => exact errorSeen_notFound
              | some info => rfl
  | storage addr slot =>
      rw [Api.batchItem, BatchItem.getSeen, Api.getStorage, Api.parseAddress, Api.parseB256]
      cases Address.parse addr with
      | none => exact (errorSeen_address addr).trans (inputSeen_address addr).symm
      | some address =>
          dsimp only
          cases B256.parse slot with
          -- the batch reports the text of the error, the `GET` handler its kind
          | none => exact (errorSeen_slot slot).trans (inputSeen_b256 slot).symm
          | some s =>
              dsimp only
              cases db.getStorage address s with
              | error e => exact errorSeen_db e
              | ok found =>
                  cases found with
                  | none => exact errorSeen_notFound
                  | some value => rfl
  | code addr =>
      rw [Api.batchItem, BatchItem.getSeen, Api.getCode, Api.parseAddress]
      cases Address.parse addr with
      | none => exact (errorSeen_address addr).trans (inputSeen_address addr).symm
      | some address =>
          dsimp only
          cases db.getAccount address with
          | error e => exact errorSeen_db e
          | ok found =>
              cases found with
              | none => exact errorSeen_notFound
              | some info =>
                  simp only [Api.found]
                  cases db.getCode info.codeHash with
                  | none => exact errorSeen_notFound
                  | some code => rfl

/-- And so is what the WebSocket answers. -/
theorem answerQuery_seen (db : StateDb) (item : BatchItem) :
    (Api.answerQuery db item.toQuery).seen = (placed (Api.batchItem db item)).seen := by
  cases item with
  | account addr =>
      rw [BatchItem.toQuery, Api.answerQuery, Api.batchItem]
      cases Address.parse addr with
      | none => rfl
      | some address =>
          dsimp only
          cases db.getAccount address with
          | error e => rfl
          | ok found => cases found <;> rfl
  | storage addr slot =>
      rw [BatchItem.toQuery, Api.answerQuery, Api.batchItem]
      cases Address.parse addr with
      | none => rfl
      | some address =>
          dsimp only
          cases B256.parse slot with
          | none => rfl
          | some s =>
              dsimp only
              cases db.getStorage address s with
              | error e => rfl
              | ok found => cases found <;> rfl
  | code addr =>
      rw [BatchItem.toQuery, Api.answerQuery, Api.batchItem]
      cases Address.parse addr with
      | none => rfl
      | some address =>
          dsimp only
          cases db.getAccount address with
          | error e => rfl
          | ok found =>
              cases found with
              | none => rfl
              | some info =>
                  dsimp only
                  cases db.getCode info.codeHash <;> rfl

theorem postBatch_eq (db : StateDb) (items : List BatchItem) :
    Api.postBatch db items = items.map fun item => placed (Api.batchItem db item) := by
  rw [Api.postBatch, List.map_map]
  refine List.map_congr_left fun item _ => ?_
  rw [Function.comp_apply]
  cases Api.batchItem db item <;> rfl

theorem processWsMessage_of_request {json : JsonReader} {db : StateDb} {text : String}
    {req : WsRequest} (h : (json.members text).bind WsRequest.ofMembers = some req) :
    Api.processWsMessage json db text = ⟨req.id, Api.answerQuery db req.query⟩ := by
  rw [Api.processWsMessage, h]

/--
**The three read interfaces agree.** A batch has an answer for each of its items, and
that answer depends on the item alone: it is what the item's GET handler answers, and
what any message with that query is answered over the WebSocket. A bad address is
reported as such whatever the slot is, and a bad slot behind a good address as a bad
slot, so these kinds of failure are told apart in the same way everywhere.
-/
theorem interfaces_agree (json : JsonReader) (db : StateDb) (items : List BatchItem) :
    (Api.postBatch db items).length = items.length
      ∧ (∀ (i : Nat) (item : BatchItem), items[i]? = some item →
          ((Api.postBatch db items)[i]?).map BatchResult.seen = some (item.getSeen db)
            ∧ ∀ text id, (json.members text).bind WsRequest.ofMembers = some ⟨id, item.toQuery⟩ →
                (Api.processWsMessage json db text).payload.seen = item.getSeen db
                  ∧ (Api.processWsMessage json db text).id = id)
      ∧ (∀ item : BatchItem, Address.parse item.address = none →
          item.getSeen db = .invalidAddress)
      ∧ ∀ (addr slot : String) (address : Address), Address.parse addr = some address →
          B256.parse slot = none → (BatchItem.storage addr slot).getSeen db = .invalidSlot := by
  refine ⟨?_, ?_, ?_, ?_⟩
  · rw [postBatch_eq, List.length_map]
  · intro i item hitem
    constructor
    · rw [postBatch_eq, List.getElem?_map, hitem, Option.map_some, Option.map_some,
        batchItem_seen]
    · intro text id htext
      -- socket and batch alike show what a `GET` of the item shows
      rw [processWsMessage_of_request htext]
      exact ⟨(answerQuery_seen db item).trans (batchItem_seen db item), rfl⟩
  · intro item h
    exact getSeen_of_invalidAddress db h
  · intro addr slot address haddr hslot
    exact getSeen_of_invalidSlot db haddr hslot

end EvmState
