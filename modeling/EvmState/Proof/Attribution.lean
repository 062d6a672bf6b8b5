import EvmState.Api.Socket

/-!
# Which answers of a connection are attributable

A connection answers the texts it receives one by one, in their order, until a send fails
(`handleSocket_eq`). An answer carries the `id` of its text exactly when the text reads
as a request (`echoes_iff`): the `id` is read together with the query, and a text that is
no request, such as one with an unknown `type`, loses its `id` with it.
-/

namespace EvmState

/-! ## The order of the answers -/

/-- The texts that arrive before the connection is closed or breaks. -/
def received : List Api.Frame → List String
  | [] => []
  | .text s :: frames => s :: received frames
  | .close :: _ => []
  | .failed :: _ => []
  | .binary :: frames => received frames
  | .ping :: frames => received frames
  | .pong :: frames => received frames

/-- The texts whose answers go out: those before the first send that fails. -/
def answeredFrom (sends : Nat → Bool) (k : Nat) (texts : List String) : List String :=
  ((texts.zipIdx k).takeWhile fun t => sends t.2).map Prod.fst

theorem answeredFrom_cons (sends : Nat → Bool) (k : Nat) (text : String) (texts : List String) :
    answeredFrom sends k (text :: texts)
      = if sends k then text :: answeredFrom sends (k + 1) texts else [] := by
  rw [answeredFrom, List.zipIdx_cons, List.takeWhile_cons]
  by_cases hs : sends k = true
  · rw [if_pos hs, if_pos hs, List.map_cons]
    rfl
  · rw [if_neg hs, if_neg hs, List.map_nil]

theorem handleSocket_eq (respond : String → WsResponse) (sends : Nat → Bool)
    (frames : List Api.Frame) (k : Nat) :
    Api.handleSocket respond sends k frames
      = (answeredFrom sends k (received frames)).map respond := by
  induction frames generalizing k with
  | nil => rfl
  | cons frame frames ih =>
      cases frame with
      | text s =>
          rw [Api.handleSocket, received, answeredFrom_cons]
          -- `k` counts the text frames, so it moves whether or not the answer is sent
          by_cases hs : sends k = true
          · rw [if_pos hs, if_pos hs, List.map_cons, ih]
          · rw [if_neg hs, if_neg hs, List.map_nil]
      | binary => exact ih k
      | ping => exact ih k
      | pong => exact ih k
      | close => rfl
      | failed => rfl

/-! ## What reads as a request -/

/-- The fields of a kind of query. -/
def WsTag.fields : WsTag → List String
  | .account => ["addr"]
  | .storage => ["addr", "slot"]
  | .code => ["addr"]
  | .head => []

/-- A known `type`, its fields, each a string, and none of them nor the `id` given twice. -/
structure JsonMembers.IsRequest (ms : JsonMembers) : Prop where
  id_once : (ms.named "id").length ≤ 1
  known : ∃ tag kind, ms.named "type" = [tag] ∧ WsTag.ofValue tag = some kind
    ∧ ∀ field ∈ kind.fields, (ms.str field).isSome

theorem named_others {name other : String} (h : name ≠ other) (ms : JsonMembers) :
    (ms.others other).named name = ms.named name := by
  rw [JsonMembers.named, JsonMembers.others, List.filter_filter, JsonMembers.named]
  congr 1
  refine List.filter_congr fun m _ => ?_
  by_cases hm : m.1 = name
  · have hother : m.1 ≠ other := fun heq => h (hm.symm.trans heq)
    simp [hm, h]
  · simp [hm]

theorem str_others {name other : String} (h : name ≠ other) (ms : JsonMembers) :
    (ms.others other).str name = ms.str name := by
  rw [JsonMembers.str, named_others h, JsonMembers.str]

/-- A query is read when its `type` is known and its fields are there. -/
theorem isSome_queryOfMembers_iff (ms : JsonMembers) :
    (WsQuery.ofMembers ms).isSome ↔ ∃ tag kind, ms.named "type" = [tag]
      ∧ WsTag.ofValue tag = some kind ∧ ∀ field ∈ kind.fields, (ms.str field).isSome := by
  -- the tag is taken out first: it is no field of any variant
  have haddr : (ms.others "type").str "addr" = ms.str "addr" := str_others (by decide) ms
  have hslot : (ms.others "type").str "slot" = ms.str "slot" := str_others (by decide) ms
  rw [WsQuery.ofMembers]
  rcases ms.named "type" with _ | ⟨tag, _ | ⟨tag', rest⟩⟩
  · simp
  · dsimp only
    rw [haddr, hslot]
    cases htag : WsTag.ofValue tag with
    | none => simp [htag]
    | some kind =>
        cases kind with
        | account => simp [htag, WsTag.fields]
        | storage =>
            cases haddr' : ms.str "addr" with
            | none => simp [htag, WsTag.fields, haddr']
            | some addr =>
                cases hslot' : ms.str "slot" with
                | none => simp [htag, WsTag.fields, hslot']
                | some slot => simp [htag, WsTag.fields, haddr', hslot']
        | code => simp [htag, WsTag.fields]
        | head => simp [htag, WsTag.fields]
  · simp

theorem isSome_ofMembers_iff (ms : JsonMembers) :
    (WsRequest.ofMembers ms).isSome ↔ ms.IsRequest := by
  have hquery : (WsQuery.ofMembers (ms.others "id")).isSome ↔ ∃ tag kind, ms.named "type" = [tag]
      ∧ WsTag.ofValue tag = some kind ∧ ∀ field ∈ kind.fields, (ms.str field).isSome := by
    rw [isSome_queryOfMembers_iff, named_others (by decide)]
    have hstr : ∀ kind : WsTag, ∀ field ∈ kind.fields,
        (ms.others "id").str field = ms.str field := by
      intro kind field hfield
      refine str_others ?_ ms
      -- no variant has a field named `id`, which the outer struct takes
      rintro rfl
      cases kind <;> simp [WsTag.fields] at hfield
    constructor
    · rintro ⟨tag, kind, htag, hkind, hfields⟩
      exact ⟨tag, kind, htag, hkind, fun field h => hstr kind field h ▸ hfields field h⟩
    · rintro ⟨tag, kind, htag, hkind, hfields⟩
      exact ⟨tag, kind, htag, hkind, fun field h => (hstr kind field h).symm ▸ hfields field h⟩
  rw [WsRequest.ofMembers]
  rcases hid : ms.named "id" with _ | ⟨id, _ | ⟨id', rest⟩⟩
  · rw [Option.isSome_map, hquery]
    exact ⟨fun h => ⟨by rw [hid]; exact Nat.zero_le 1, h⟩, fun h => h.known⟩
  · rw [Option.isSome_map, hquery]
    exact ⟨fun h => ⟨by rw [hid]; exact Nat.le_refl 1, h⟩, fun h => h.known⟩
  · refine ⟨fun h => absurd h (by simp), fun h => ?_⟩
    have honce := h.id_once
    rw [hid, List.length_cons, List.length_cons] at honce
    omega

/-! ## The ids of the answers -/

/-- The text is an object and has this `id`, which is no `null`. -/
def HasId (json : JsonReader) (text : String) (id : JsonValue) : Prop :=
  ∃ ms, json.members text = some ms ∧ ("id", id) ∈ ms ∧ id ≠ .null

theorem mem_named {ms : JsonMembers} {name : String} {v : JsonValue} :
    v ∈ ms.named name ↔ (name, v) ∈ ms := by
  rw [JsonMembers.named, List.mem_map]
  constructor
  · rintro ⟨m, hm, rfl⟩
    obtain ⟨hmem, hname⟩ := List.mem_filter.mp hm
    have hname : m.1 = name := of_decide_eq_true hname
    exact hname ▸ hmem
  · intro hmem
    exact ⟨(name, v), List.mem_filter.mpr ⟨hmem, decide_eq_true rfl⟩, rfl⟩

theorem nonNull_eq {v : JsonValue} (h : v ≠ .null) : v.nonNull = some v := by
  cases v with
  | null => exact absurd rfl h
  | bool b => rfl
  | posInt n => rfl
  | negInt n => rfl
  | float bits => rfl
  | string s => rfl
  | array items => rfl
  | object members => rfl

/-- The `id` of a request is the one its text gives. -/
theorem id_ofMembers {ms : JsonMembers} {req : WsRequest} {id : JsonValue}
    (h : WsRequest.ofMembers ms = some req) (hid : ("id", id) ∈ ms) (hne : id ≠ .null) :
    req.id = some id := by
  have hmem : id ∈ ms.named "id" := mem_named.mpr hid
  rw [WsRequest.ofMembers] at h
  rcases hnamed : ms.named "id" with _ | ⟨v, _ | ⟨v', rest⟩⟩
  · rw [hnamed] at hmem
    exact absurd hmem List.not_mem_nil
  · rw [hnamed] at h hmem
    obtain rfl : id = v := List.mem_singleton.mp hmem
    obtain ⟨query, _, rfl⟩ := Option.map_eq_some_iff.mp h
    exact nonNull_eq hne
  · rw [hnamed] at h
    cases h

/-- Every `id` a text has is in its answer when the text is a request, and none is otherwise. -/
theorem echoes_iff (json : JsonReader) (db : StateDb) (text : String) :
    (∀ id, HasId json text id → (Api.processWsMessage json db text).id = some id)
      ↔ ∀ id ms, HasId json text id → json.members text = some ms → ms.IsRequest := by
  constructor
  · intro h id ms hhas hms
    by_contra hno
    have hnone : WsRequest.ofMembers ms = none := by
      rw [← Option.not_isSome_iff_eq_none, isSome_ofMembers_iff]
      exact hno
    have hid := h id hhas
    rw [Api.processWsMessage, hms, Option.bind_some, hnone] at hid
    cases hid
  · intro h id hhas
    obtain ⟨ms, hms, hmem, hne⟩ := hhas
    have hreq : (WsRequest.ofMembers ms).isSome :=
      (isSome_ofMembers_iff ms).mpr (h id ms ⟨ms, hms, hmem, hne⟩ hms)
    obtain ⟨req, hreq⟩ := Option.isSome_iff_exists.mp hreq
    rw [Api.processWsMessage, hms, Option.bind_some, hreq]
    exact id_ofMembers hreq hmem hne

/-! ## A connection -/

/-- One answer a text, in order, until a send fails, and each with the `id` of its text. -/
structure Attributable (json : JsonReader) (db : StateDb) (sends : Nat → Bool)
    (frames : List Api.Frame) : Prop where
  in_order : Api.handleSocket (Api.processWsMessage json db) sends 0 frames
    = (answeredFrom sends 0 (received frames)).map (Api.processWsMessage json db)
  echoed : ∀ text ∈ answeredFrom sends 0 (received frames), ∀ id, HasId json text id →
    (Api.processWsMessage json db text).id = some id

/--
**When the answers are attributable.** Exactly when every answered text that has an `id`
reads as a request.
-/
theorem attributable_iff (json : JsonReader) (db : StateDb) (sends : Nat → Bool)
    (frames : List Api.Frame) :
    Attributable json db sends frames
      ↔ ∀ text ∈ answeredFrom sends 0 (received frames),
          ∀ id ms, HasId json text id → json.members text = some ms → ms.IsRequest := by
  constructor
  · intro h text htext
    exact (echoes_iff json db text).mp (h.echoed text htext)
  · intro h
    exact ⟨handleSocket_eq _ sends frames 0,
      fun text htext => (echoes_iff json db text).mpr (h text htext)⟩

/-- A query of a type that there is none of. -/
def blockQuery : String := "\x7b\"id\":7,\"type\":\"block\"\x7d"

/-- What a JSON library makes of it. -/
def blockReader : JsonReader where
  members := fun text =>
    if text = blockQuery then some [("id", .posInt 7), ("type", .string "block")] else none
  complaint := fun _ => "unknown variant"

/-- Its answer does not carry its id. -/
theorem answer_loses_id :
    ¬ Attributable blockReader .empty (fun _ => true) [.text blockQuery] := by
  intro h
  have hms : blockReader.members blockQuery
      = some [("id", .posInt 7), ("type", .string "block")] := by
    simp only [blockReader, if_true]
  have hid : (Api.processWsMessage blockReader .empty blockQuery).id = some (.posInt 7) :=
    h.echoed blockQuery (List.mem_singleton.mpr rfl) (.posInt 7)
      ⟨_, hms, List.mem_cons_self, by simp⟩
  rw [Api.processWsMessage, hms] at hid
  cases hid

end EvmState
