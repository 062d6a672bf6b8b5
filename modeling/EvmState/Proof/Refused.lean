import EvmState.Proof.Remote

/-!
# What a refused prefetch leaves behind

A response is filed entry by entry, and the first value that does not parse ends the
prefetch with an error; so does a result that is no hex string, at the very end. What
was filed by then stays (`receive_eq`). A refused response therefore leaves the caches
alone exactly if whatever comes before the malformed value was in them already: for the
map of the WASM client with the same value, for the bounded caches of `RemoteDB` as the
entries used last.
-/

namespace EvmState

open CachePut

namespace PrefetchResponse

/-- The response has a malformed value, in an entry with a readable key or as its result. -/
def Malformed (resp : PrefetchResponse) : Prop :=
  (∃ e, .error e ∈ resp.stateSlice.puts) ∨ decodeHexBytes resp.result = none

/-- What comes before the first malformed value. -/
def filed (resp : PrefetchResponse) : List CachePut := Lists.untilError resp.stateSlice.puts

/-- What a response leaves in a cache, refused or not. -/
theorem receive_eq {γ : Type} (put : γ → CachePut → γ) (resp : PrefetchResponse) (cache : γ) :
    (resp.receive put cache).1 = resp.filed.foldl put cache := by
  rw [receive_fst, Lists.runUntil_fst, filed]

/-- A response is refused exactly if it is malformed. -/
theorem receive_error_iff {γ : Type} (put : γ → CachePut → γ) (resp : PrefetchResponse)
    (cache : γ) : (∃ e, (resp.receive put cache).2 = .error e) ↔ resp.Malformed := by
  -- the slice fails exactly when one of its entries does; which one is met first is left open
  have hputs : (∃ e, (Lists.runUntil put resp.stateSlice.puts cache).2 = .error e)
      ↔ ∃ e, .error e ∈ resp.stateSlice.puts := by
    constructor
    · intro h
      obtain ⟨e, he⟩ := h
      obtain ⟨pre, post, heq, _⟩ := (Lists.runUntil_error_iff ..).mp he
      exact ⟨e, by simp [heq]⟩
    · intro h
      by_contra hnone
      obtain ⟨e, he⟩ := h
      cases hrun : (Lists.runUntil put resp.stateSlice.puts cache).2 with
      | error e' => exact hnone ⟨e', hrun⟩
      | ok u => exact (Lists.error_notMem_of_ok hrun e) he
  rw [Malformed, ← hputs]
  unfold receive decodeBytes
  cases Lists.runUntil put resp.stateSlice.puts cache with
  | mk cache' result =>
      cases result with
      | error e => simp
      | ok u => cases decodeHexBytes resp.result <;> simp

end PrefetchResponse

/-! ## The two clients -/

/-- These entries are the ones each cache used last, as many of them as it holds. -/
def RemoteCache.UsedLast (c : RemoteCache) (ps : List CachePut) : Prop :=
  (Lru.recentEntries (ps.filterMap accountPart)).take c.accounts.cap <+: c.accounts.entries
    ∧ (Lru.recentEntries (ps.filterMap storagePart)).take c.storage.cap <+: c.storage.entries
    ∧ (Lru.recentEntries (ps.filterMap codePart)).take c.code.cap <+: c.code.entries

/-- The last of these entries for each key is in the cache. -/
def WasmCache.Has (c : WasmCache) (ps : List CachePut) : Prop :=
  (∀ a o, Maps.lastValue (ps.filterMap accountPart) a = some o → c.accounts[a]? = some o)
    ∧ (∀ k v, Maps.lastValue (ps.filterMap storagePart) k = some v → c.storage[k]? = some v)
    ∧ ∀ h raw, Maps.lastValue (ps.filterMap codePart) h = some raw → c.code[h]? = some raw

namespace RemoteDb

/-- Filing leaves the caches as they are exactly if it files what they used last. -/
theorem foldl_put_eq_self_iff (ps : List CachePut) (c : RemoteCache) :
    ps.foldl put c = c ↔ c.UsedLast ps := by
  rw [foldl_put, RemoteCache.UsedLast, ← Lru.putAll_eq_self_iff, ← Lru.putAll_eq_self_iff,
    ← Lru.putAll_eq_self_iff]
  constructor
  · intro h
    exact ⟨congrArg RemoteCache.accounts h, congrArg RemoteCache.storage h,
      congrArg RemoteCache.code h⟩
  · intro h
    obtain ⟨ha, hs, hc⟩ := h
    rw [ha, hs, hc]

end RemoteDb

namespace WasmCache

theorem foldl_put_eq_self_iff (ps : List CachePut) (c : WasmCache) :
    ps.foldl put c = c ↔ c.Has ps := by
  rw [foldl_put, Has, ← Maps.insertAll_eq_self_iff, ← Maps.insertAll_eq_self_iff,
    ← Maps.insertAll_eq_self_iff]
  constructor
  · intro h
    exact ⟨congrArg accounts h, congrArg storage h, congrArg code h⟩
  · intro h
    obtain ⟨ha, hs, hc⟩ := h
    rw [ha, hs, hc]

end WasmCache

/-- A refused response leaves a cache alone exactly if filing what came before changes nothing. -/
theorem refused_unchanged_iff {γ : Type} (put : γ → CachePut → γ) (resp : PrefetchResponse)
    (cache : γ) :
    ((∃ e, (resp.receive put cache).2 = .error e) → (resp.receive put cache).1 = cache)
      ↔ (resp.Malformed → resp.filed.foldl put cache = cache) := by
  rw [resp.receive_error_iff, resp.receive_eq]

/--
**When a rejected prefetch leaves the cache alone**: if the reply is no response at all,
or a response that is well formed, or one with nothing before its malformed value but
entries that are in the caches already, as the ones used last where the caches are
bounded.
-/
theorem rejected_prefetch_unchanged_iff (reply : Except ClientError PrefetchResponse)
    (c : RemoteCache) (w : WasmCache) :
    (((∃ e, (RemoteDb.takeReply reply c).2 = .error e) → (RemoteDb.takeReply reply c).1 = c)
        ↔ ∀ resp, reply = .ok resp → resp.Malformed → c.UsedLast resp.filed)
      ∧ (((∃ e, (w.takeReply reply).2 = .error e) → (w.takeReply reply).1 = w)
        ↔ ∀ resp, reply = .ok resp → resp.Malformed → w.Has resp.filed) := by
  cases reply with
  | error e =>
      constructor
      · exact iff_of_true (fun _ => rfl) fun resp h => by cases h
      · exact iff_of_true (fun _ => rfl) fun resp h => by cases h
  | ok resp =>
      -- the reply is the only one there is, so "every reply" speaks of it
      have hone : ∀ P : PrefetchResponse → Prop,
          (∀ resp', Except.ok (ε := ClientError) resp = .ok resp' → P resp') ↔ P resp := by
        intro P
        constructor
        · intro h
          exact h resp rfl
        · intro h resp' heq
          obtain rfl := Except.ok.inj heq
          exact h
      constructor
      · rw [hone, ← RemoteDb.foldl_put_eq_self_iff]
        exact refused_unchanged_iff RemoteDb.put resp c
      · rw [hone, ← WasmCache.foldl_put_eq_self_iff]
        exact refused_unchanged_iff WasmCache.put resp w

/-- A response with the code of one contract and a result that is no hex string. -/
def brokenResult : PrefetchResponse where
  result := "zz"
  success := true
  accessList := []
  stateSlice := ⟨∅, ∅, Maps.insertAll ∅ [(B256.toHex 1, bytesToHex [0x60])]⟩

theorem puts_brokenResult : brokenResult.stateSlice.puts = [.ok (.code 1 [0x60])] := by
  -- its one code is listed under its hash, whatever order the map is walked in
  have hcode : brokenResult.stateSlice.code.toList = [(B256.toHex 1, bytesToHex [0x60])] := by
    refine (Tables.eq_toList (by simp) fun k v => ?_).symm
    refine (Maps.insertAll_empty_getElem?_iff fun u u' hu hu' => ?_).symm
    rw [List.mem_singleton, Prod.mk.injEq] at hu hu'
    rw [hu.2, hu'.2]
  have haccounts : brokenResult.stateSlice.accounts.toList = [] := rfl
  have hstorage : brokenResult.stateSlice.storage.toList = [] := rfl
  rw [StateSlice.puts, hcode, haccounts, hstorage, List.filterMap_nil, List.flatMap_nil,
    List.nil_append, List.nil_append, List.filterMap_cons, B256.parse_toHex, Option.map_some,
    decodeBytes_bytesToHex]
  rfl

/-- **A refused response and a changed cache**: the code is filed before the result is read. -/
theorem rejected_prefetch_filed :
    let remote := RemoteDb.takeReply (.ok brokenResult) (.new 1 Nat.one_pos)
    let wasm := WasmCache.new.takeReply (.ok brokenResult)
    remote.2 = .error (.invalidResponse "invalid hex")
      ∧ remote.1.code.peek 1 = some [0x60]
      ∧ wasm.2 = .error (.invalidResponse "invalid hex") ∧ wasm.1.codeByHashRef 1 = [0x60]
      ∧ ¬ ((∃ e, remote.2 = .error e) → remote.1 = .new 1 Nat.one_pos)
      ∧ ¬ ((∃ e, wasm.2 = .error e) → wasm.1 = .new) := by
  intro remote wasm
  have hdecode : decodeBytes brokenResult.result = .error (.invalidResponse "invalid hex") := by
    decide
  -- the slice is filed before the result is decoded, and the result does not decode
  have hreceive : ∀ {γ : Type} (put : γ → CachePut → γ) (cache : γ),
      brokenResult.receive put cache
        = (put cache (.code 1 [0x60]), .error (.invalidResponse "invalid hex")) := by
    intro γ put cache
    simp only [PrefetchResponse.receive, puts_brokenResult, Lists.runUntil, hdecode]
  have hremote : remote = (RemoteDb.put (.new 1 Nat.one_pos) (.code 1 [0x60]),
      .error (.invalidResponse "invalid hex")) := hreceive RemoteDb.put _
  have hwasm : wasm = (WasmCache.new.put (.code 1 [0x60]), .error (.invalidResponse "invalid hex")) :=
    hreceive WasmCache.put _
  have hcode : remote.1.code.peek 1 = some [0x60] := by rw [hremote]; decide
  have hcode' : wasm.1.codeByHashRef 1 = [0x60] := by
    rw [hwasm]
    simp [WasmCache.put, WasmCache.codeByHashRef]
  refine ⟨by rw [hremote], hcode, by rw [hwasm], hcode', ?_, ?_⟩
  · intro h
    have hkept : remote.1 = .new 1 Nat.one_pos := h ⟨_, by rw [hremote]⟩
    rw [hkept] at hcode
    cases hcode
  · intro h
    have hkept : wasm.1 = .new := h ⟨_, by rw [hwasm]⟩
    rw [hkept] at hcode'
    cases hcode'

end EvmState
