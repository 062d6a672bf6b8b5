import EvmState.Lib.Json
import EvmState.Api.Handlers

/-!
# Bodies as JSON

Every body under the field names of the side that writes it, and the reader of the
other side under its own. Maps are objects, written in key order. What follows a
refusal is not read by any client, so only its status is kept.
-/

namespace EvmState

open Std
open Json (Doc)

/-! ## Maps and numbers -/

/-- A `u64`, out of a number. -/
def docU64 (d : Doc) : Option U64 := d.asNum.bind (fits 64)

/-- The members of a map. -/
def mapMembers {ν : Type} (print : ν → Doc) (m : HashMap String ν) : List (String × Doc) :=
  m.toList.map fun e => (e.1, print e.2)

/-- A map, out of an object. -/
def docMap {ν : Type} (read : Doc → Option ν) : Doc → Option (HashMap String ν)
  | .object members =>
      (members.mapM fun m => (read m.2).map fun v => (m.1, v)).map (Maps.insertAll ∅)
  | _ => none

/-! ## Responses -/

def AccountResponse.members (r : AccountResponse) : List (String × Doc) :=
  [("nonce", .num r.nonce.toNat), ("balance", .str r.balance), ("code_hash", .str r.codeHash)]

def AccountResponse.ofDoc (d : Doc) : Option AccountResponse :=
  match (d.get "nonce").bind docU64, (d.get "balance").bind Doc.asStr,
    (d.get "code_hash").bind Doc.asStr with
  | some nonce, some balance, some codeHash => some ⟨nonce, balance, codeHash⟩
  | _, _, _ => none

def StorageResponse.members (r : StorageResponse) : List (String × Doc) := [("value", .str r.value)]

def StorageResponse.ofDoc (d : Doc) : Option StorageResponse :=
  ((d.get "value").bind Doc.asStr).map StorageResponse.mk

def CodeResponse.members (r : CodeResponse) : List (String × Doc) := [("code", .str r.code)]

def CodeResponse.ofDoc (d : Doc) : Option CodeResponse :=
  ((d.get "code").bind Doc.asStr).map CodeResponse.mk

def StateSlice.members (slice : StateSlice) : List (String × Doc) :=
  [("accounts", .object (mapMembers (fun r => .object r.members) slice.accounts)),
    ("storage", .object (mapMembers (fun m => .object (mapMembers Doc.str m)) slice.storage)),
    ("code", .object (mapMembers Doc.str slice.code))]

def StateSlice.ofDoc (d : Doc) : Option StateSlice :=
  match (d.get "accounts").bind (docMap AccountResponse.ofDoc),
    (d.get "storage").bind (docMap (docMap Doc.asStr)), (d.get "code").bind (docMap Doc.asStr) with
  | some accounts, some storage, some code => some ⟨accounts, storage, code⟩
  | _, _, _ => none

def AccessListEntry.members (e : AccessListEntry) : List (String × Doc) :=
  [("address", .str e.address), ("slots", .array (e.slots.map Doc.str))]

def PrefetchResponse.members (r : PrefetchResponse) : List (String × Doc) :=
  [("result", .str r.result), ("success", .bool r.success),
    ("access_list", .array (r.accessList.map fun e => .object e.members)),
    ("state_slice", .object r.stateSlice.members)]

/-- The clients have no field for the access list. -/
def PrefetchResponse.ofDoc (d : Doc) : Option PrefetchResponse :=
  match (d.get "result").bind Doc.asStr, (d.get "success").bind Doc.asBool,
    (d.get "state_slice").bind StateSlice.ofDoc with
  | some result, some success, some slice => some ⟨result, success, [], slice⟩
  | _, _, _ => none

/-! ## The request -/

/-- A field that is left out when it is `None`. -/
def optionMember (name : String) (v : Option String) : List (String × Doc) :=
  (v.map fun s => (name, Doc.str s)).toList

def PrefetchRequest.members (req : PrefetchRequest) : List (String × Doc) :=
  ("to", .str req.toAddr) :: (optionMember "data" req.data
    ++ optionMember "from" req.fromAddr ++ optionMember "value" req.value)

/-- A field that may be missing. -/
def optionField (d : Doc) (name : String) : Option (Option String) :=
  match d.get name with
  | some v => v.asStr.map some
  | none => some none

def PrefetchRequest.ofDoc (d : Doc) : Option PrefetchRequest :=
  match (d.get "to").bind Doc.asStr, optionField d "data", optionField d "from",
    optionField d "value" with
  | some toAddr, some data, some fromAddr, some value => some ⟨toAddr, data, fromAddr, value⟩
  | _, _, _, _ => none

/-! ## Over HTTP -/

/-- The text of a body. -/
def bodyText (members : List (String × Doc)) : String := String.ofList (Json.render (.object members))

/-- A response, as far as clients look at it. -/
inductive HttpResponse where
  | ok (body : String)
  | refused (status : Nat)
deriving DecidableEq, Repr

/-- `Json(body)`, or the status of the error. -/
def respond {α : Type} (members : α → List (String × Doc)) : Except AppError α → HttpResponse
  | .ok v => .ok (bodyText (members v))
  | .error e => .refused e.status

/-- The body of a response at 200, read with a JSON library; `none` is a body that does not parse. -/
def HttpResponse.read {α : Type} (json : String → Option Doc) (ofDoc : Doc → Option α) :
    HttpResponse → Except Nat (Option α)
  | .ok body => .ok ((json body).bind ofDoc)
  | .refused status => .error status

/-! ## What is written is read -/

section RoundTrips

variable {ν : Type} {print : ν → Doc} {read : Doc → Option ν} {m : HashMap String ν}

theorem plainMembers_map (h : ∀ k v, m[k]? = some v → FlatJson.plainString k = true
    ∧ Json.plain (print v) = true) : Json.plainMembers (mapMembers print m) = true := by
  refine Json.plainMembers_iff.mpr fun member hmember => ?_
  obtain ⟨⟨k, v⟩, he, rfl⟩ := List.mem_map.mp hmember
  exact h k v (ExtTreeMap.mem_toList_iff_getElem?_eq_some.mp he)

/-- A map whose values are read back is read back. -/
theorem docMap_mapMembers (h : ∀ v, read (print v) = some v) :
    docMap read (.object (mapMembers print m)) = some m := by
  have hall : ∀ l : List (String × ν), ((l.map fun e => (e.1, print e.2)).mapM fun member =>
      (read member.2).map fun v => (member.1, v)) = some l := by
    intro l
    induction l with
    | nil => rfl
    | cons e l ih =>
        rw [List.map_cons, List.mapM_cons, ih, h]
        rfl
  rw [docMap, mapMembers, hall, Option.map_some, Maps.insertAll_toList]

@[simp] theorem AccountResponse.ofDoc_members (r : AccountResponse) :
    ofDoc (.object r.members) = some r := by
  simp [ofDoc, members, Doc.get, Doc.asStr, Doc.asNum, docU64]

@[simp] theorem StorageResponse.ofDoc_members (r : StorageResponse) :
    ofDoc (.object r.members) = some r := by
  simp [ofDoc, members, Doc.get, Doc.asStr]

@[simp] theorem CodeResponse.ofDoc_members (r : CodeResponse) :
    ofDoc (.object r.members) = some r := by
  simp [ofDoc, members, Doc.get, Doc.asStr]

@[simp] theorem StateSlice.ofDoc_members (slice : StateSlice) :
    ofDoc (.object slice.members) = some slice := by
  have hstr : ∀ s, Doc.asStr (.str s) = some s := fun s => rfl
  have haccounts := docMap_mapMembers (m := slice.accounts) AccountResponse.ofDoc_members
  have hstorage := docMap_mapMembers (m := slice.storage)
    fun m : HashMap String String => docMap_mapMembers (m := m) hstr
  have hcode := docMap_mapMembers (m := slice.code) hstr
  simp [ofDoc, members, Doc.get, haccounts, hstorage, hcode]

theorem PrefetchResponse.ofDoc_members (r : PrefetchResponse) :
    ofDoc (.object r.members) = some { r with accessList := [] } := by
  simp [ofDoc, members, Doc.get, Doc.asStr, Doc.asBool]

theorem PrefetchRequest.ofDoc_members (req : PrefetchRequest) :
    ofDoc (.object req.members) = some req := by
  obtain ⟨toAddr, data, fromAddr, value⟩ := req
  cases data <;> cases fromAddr <;> cases value <;>
    simp [ofDoc, members, optionMember, optionField, Doc.get, Doc.asStr]

/-- **A response arrives as it was sent**, or with its status. -/
theorem read_respond {α β : Type} {json : String → Option Doc} (hjson : Json.Reads json)
    {members : α → List (String × Doc)} {ofDoc : Doc → Option β} {view : α → β}
    (hread : ∀ v, ofDoc (.object (members v)) = some (view v)) {r : Except AppError α}
    (hplain : ∀ v, r = .ok v → Json.plainMembers (members v) = true) :
    (respond members r).read json ofDoc
      = (r.map fun v => some (view v)).mapError AppError.status := by
  cases r with
  | error e => rfl
  | ok v =>
      rw [respond, HttpResponse.read, bodyText, hjson _ (hplain v rfl), Option.bind_some, hread]
      rfl

end RoundTrips

end EvmState
