import EvmState.Client.Initialize

/-!
# One load for all calls

However the calls of a client come and go, its module is imported once at most, and one
WASM client made: the one all calls return, that of the configuration
(`ensureInitialized_once`). The promise is kept when the load fails, too, so that a client
whose first load has failed is lost.
-/

namespace EvmState

namespace EvmStateClient

/-- The WASM client of a configuration. -/
def wasmOf (config : EvmStateClientConfig) : WasmHandle :=
  ⟨0, config.endpoint, config.verify.getD false⟩

/-- Where a call can stand for a state of the load. -/
def CallAt (config : EvmStateClientConfig) (promise : Option InitPromise) : InitCall → Prop
  | .waiting => promise ≠ none
  | .returned wasm => promise = some .fulfilled ∧ wasm = some (wasmOf config)
  | .threw => promise = some .rejected

/-- The load says what there is. -/
structure Loads (config : EvmStateClientConfig) (c : EvmStateClient) : Prop where
  configured : c.config = config
  imports : c.imports = if c.initPromise = none then 0 else 1
  made : c.made = if c.initPromise = some .fulfilled then 1 else 0
  wasmClient : c.wasmClient = if c.initPromise = some .fulfilled then some (wasmOf config) else none
  callers : ∀ caller ∈ c.callers, CallAt config c.initPromise caller

variable {config : EvmStateClientConfig} {c c' : EvmStateClient}

theorem loads_new : Loads config (new config) where
  configured := rfl
  imports := rfl
  made := rfl
  wasmClient := rfl
  callers := by simp [new]

/-- While a load goes on, every call waits for it. -/
theorem Loads.waiting (h : Loads config c)
    (hp : c.initPromise = some .importing ∨ c.initPromise = some .starting) :
    ∀ caller ∈ c.callers, caller = .waiting := by
  intro caller hmem
  have hcaller := h.callers caller hmem
  cases caller with
  | waiting => rfl
  | returned wasm =>
      obtain ⟨hdone, _⟩ := hcaller
      rcases hp with hp | hp <;> exact absurd (hp.symm.trans hdone) (by simp)
  | threw => rcases hp with hp | hp <;> exact absurd (hp.symm.trans hcaller) (by simp)

theorem callAt_waiting {promise : InitPromise} {l : List InitCall}
    (h : ∀ caller ∈ l, caller = .waiting) :
    ∀ caller ∈ l, CallAt config (some promise) caller := by
  intro caller hmem
  rw [h caller hmem]
  exact Option.some_ne_none _

/-- One more call that stands where it can. -/
theorem Loads.join (h : Loads config c) {caller : InitCall}
    (hcaller : CallAt config c.initPromise caller) :
    Loads config { c with callers := c.callers ++ [caller] } where
  configured := h.configured
  imports := h.imports
  made := h.made
  wasmClient := h.wasmClient
  callers := List.forall_mem_append.mpr ⟨h.callers, by simpa using hcaller⟩

/-- **One more call** starts the load, waits for it, or has what it has brought. -/
theorem Loads.called (h : Loads config c) : Loads config c.ensureInitialized := by
  cases hwasm : c.wasmClient with
  | some wasm =>
      have heq : c.ensureInitialized
          = { c with callers := c.callers ++ [.returned (some wasm)] } := by
        simp only [ensureInitialized, hwasm]
      rw [heq]
      have hset := h.wasmClient
      rw [hwasm] at hset
      split at hset
      · rename_i hdone
        exact h.join ⟨hdone, hset⟩
      · cases hset
  | none =>
      cases hp : c.initPromise with
      | some promise =>
          have heq : c.ensureInitialized = { c with callers := c.callers ++ [.waiting] } := by
            simp only [ensureInitialized, hwasm, hp]
          rw [heq]
          exact h.join (by simp [CallAt, hp])
      | none =>
          have heq : c.ensureInitialized
              = { c with
                  initPromise := some .importing
                  imports := c.imports + 1
                  callers := c.callers ++ [.waiting] } := by
            simp only [ensureInitialized, hwasm, hp]
          -- nobody has called before
          have hfirst : ∀ caller ∈ c.callers, caller = InitCall.waiting := by
            intro caller hmem
            have hcaller := h.callers caller hmem
            rw [hp] at hcaller
            cases caller with
            | waiting => rfl
            | returned wasm => cases hcaller.1
            | threw => cases hcaller
          rw [heq]
          refine ⟨h.configured, ?_, ?_, ?_, ?_⟩
          · simp [h.imports, hp]
          · simp [h.made, hp]
          · simp [hwasm]
          · exact callAt_waiting (List.forall_mem_append.mpr ⟨hfirst, by simp⟩)

/-- A call that goes on behind the promise. -/
theorem Loads.resume (h : Loads config c) (i : Nat) {caller : InitCall}
    (hcaller : CallAt config c.initPromise caller) :
    Loads config { c with callers := c.callers.set i caller } where
  configured := h.configured
  imports := h.imports
  made := h.made
  wasmClient := h.wasmClient
  callers := by
    intro other hmem
    rcases List.mem_or_eq_of_mem_set hmem with hold | rfl
    · exact h.callers other hold
    · exact hcaller

/-- **Every step keeps that.** -/
theorem Loads.step (h : Loads config c) (hs : Step c c') : Loads config c' := by
  cases hs with
  | called => exact h.called
  | imported hp =>
      exact ⟨h.configured, by simp [h.imports, hp], by simp [h.made, hp],
        by simp [h.wasmClient, hp], callAt_waiting (h.waiting (.inl hp))⟩
  | importFailed hp =>
      exact ⟨h.configured, by simp [h.imports, hp], by simp [h.made, hp],
        by simp [h.wasmClient, hp], callAt_waiting (h.waiting (.inl hp))⟩
  | started hp =>
      -- no client was made while the module loads, so this is the first
      have hmade : c.made = 0 := by simp [h.made, hp]
      refine ⟨h.configured, ?_, ?_, ?_, callAt_waiting (h.waiting (.inr hp))⟩
      · simp [makeClient, h.imports, hp]
      · simp [makeClient, hmade]
      · simp [makeClient, hmade, h.configured, wasmOf]
  | startFailed hp =>
      exact ⟨h.configured, by simp [h.imports, hp], by simp [h.made, hp],
        by simp [h.wasmClient, hp], callAt_waiting (h.waiting (.inr hp))⟩
  | @resumed i hp _ =>
      have hset : c.wasmClient = some (wasmOf config) := by rw [h.wasmClient, if_pos hp]
      exact h.resume i ⟨hp, hset⟩
  | @refused i hp _ => exact h.resume i hp

/-- A load that has failed has failed for good. -/
theorem Step.rejected (hs : Step c c') (hp : c.initPromise = some .rejected) :
    c'.initPromise = some .rejected := by
  cases hs with
  | called =>
      unfold ensureInitialized
      split
      · exact hp
      · rw [hp]
  | imported h | importFailed h | started h | startFailed h =>
      exact absurd (hp.symm.trans h) (by simp)
  | resumed _ _ | refused _ _ => exact hp

theorem loads_of_steps (h : Steps (new config) c) : Loads config c := by
  induction h with
  | refl => exact loads_new
  | tail _ hs ih => exact ih.step hs

/--
**One load for all calls.** Whatever calls are made of a client and in whatever order they
and the load go on: the module is imported at most once and one WASM client is made at most;
a call that returns does so with that client, never with `null`; a call that waits has a load
to wait for; and once the load has failed no call ever returns, nor is it tried again.
-/
theorem ensureInitialized_once (config : EvmStateClientConfig) {c : EvmStateClient}
    (h : Steps (new config) c) :
    c.imports ≤ 1 ∧ c.made ≤ 1
      ∧ (∀ wasm, .returned wasm ∈ c.callers → wasm = some (wasmOf config))
      ∧ (.waiting ∈ c.callers → c.initPromise ≠ none)
      ∧ (c.initPromise = some .rejected → ∀ c', Steps c c' →
          c'.imports = c.imports ∧ ∀ wasm, .returned wasm ∉ c'.callers) := by
  have hl := loads_of_steps h
  refine ⟨?_, ?_, fun wasm hmem => (hl.callers _ hmem).2, fun hmem => hl.callers _ hmem,
    fun hrejected c' hsteps => ?_⟩
  · rw [hl.imports]
    split <;> omega
  · rw [hl.made]
    split <;> omega
  · have hl' := loads_of_steps (h.trans hsteps)
    -- a rejected promise stays: nothing replaces it
    have hrejected' : c'.initPromise = some .rejected := by
      induction hsteps with
      | refl => exact hrejected
      | tail hsteps hs ih => exact hs.rejected (ih (loads_of_steps (h.trans hsteps)))
    refine ⟨by simp [hl.imports, hl'.imports, hrejected, hrejected'], fun wasm hmem => ?_⟩
    have hdone := (hl'.callers _ hmem).1
    rw [hrejected'] at hdone
    cases hdone

/-- A client that is given its WASM client loads nothing, and every call returns with that. -/
theorem fromWasmClient_steps {wasm : WasmHandle} {endpoint : Option String} {verify : Option Bool}
    {c : EvmStateClient} (h : Steps (fromWasmClient wasm endpoint verify) c) :
    c.wasmClient = some wasm ∧ c.initPromise = none ∧ c.imports = 0
      ∧ ∀ caller ∈ c.callers, caller = .returned (some wasm) := by
  induction h with
  | refl => exact ⟨rfl, rfl, rfl, by simp [fromWasmClient, new]⟩
  | tail _ hs ih =>
      obtain ⟨hwasm, hp, himports, hcallers⟩ := ih
      cases hs with
      | called =>
          simp only [ensureInitialized, hwasm]
          exact ⟨trivial, hp, himports, List.forall_mem_append.mpr ⟨hcallers, by simp⟩⟩
      | imported h | importFailed h | started h | startFailed h | resumed h _ | refused h _ =>
          -- the client is there, so no promise is ever made
          exact absurd (hp.symm.trans h) (by simp)

/-- Two calls, a load that goes through, and the first of them. -/
theorem ensureInitialized_once_twoCalls :
    let c : EvmStateClient :=
      { config := ⟨"http://localhost:3000", none⟩
        wasmClient := some ⟨0, "http://localhost:3000", false⟩
        initPromise := some .fulfilled
        callers := [.returned (some ⟨0, "http://localhost:3000", false⟩), .waiting]
        imports := 1
        made := 1 }
    c.imports ≤ 1 ∧ c.made ≤ 1
      ∧ (∀ wasm, .returned wasm ∈ c.callers
        → wasm = some (wasmOf ⟨"http://localhost:3000", none⟩))
      ∧ (.waiting ∈ c.callers → c.initPromise ≠ none)
      ∧ (c.initPromise = some .rejected → ∀ c', Steps c c' →
          c'.imports = c.imports ∧ ∀ wasm, .returned wasm ∉ c'.callers) := by
  intro c
  refine ensureInitialized_once ⟨"http://localhost:3000", none⟩ ?_
  -- two calls before the module is loaded share one promise
  have hcalled : Steps (new ⟨"http://localhost:3000", none⟩)
      (new ⟨"http://localhost:3000", none⟩).ensureInitialized.ensureInitialized :=
    (Relation.ReflTransGen.single .called).tail .called
  exact ((hcalled.tail (.imported rfl)).tail (.started rfl)).tail (.resumed (i := 0) rfl rfl)

end EvmStateClient

end EvmState
