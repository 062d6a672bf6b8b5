import EvmState.Client.Remote
import EvmState.Proof.Slice
import EvmState.Proof.StateDb

/-!
# The recorded slots

The inspector sees the opcodes of every frame in the order they run, whether or not
the frame is reverted later. The pairs it holds at the end are those of the opcodes
that look at storage (`hasSlot_inspect`), and a prefetch reads their values from a
database that no execution writes to.
-/

namespace EvmState

open Std

section Storage

variable {db : StateDb} {acc : Accesses} {storage : HashMap String (HashMap String String)}

/-- A slice has a value for every slot it was made for. -/
theorem storageRef_of_sliceSlots {a : Address} {slots : List B256} {key : String}
    {m : HashMap String String} (h : sliceSlots db a slots = .ok (key, m)) {s : B256}
    (hs : s ∈ slots) : ∃ v, db.storageRef a s = .ok v := by
  unfold sliceSlots at h
  split at h
  · rename_i values hvalues
    obtain ⟨entry, _, hentry⟩ := Lists.exists_mem_right (Lists.forall₂_of_mapM_ok hvalues) hs
    cases hv : db.storageRef a s with
    | error e => simp [hv, Except.map] at hentry
    | ok v => exact ⟨v, rfl⟩
  · cases h

/-- **The slots of a slice** are those recorded, with the values of the database. -/
theorem slot_mem_sliceStorage (h : sliceStorage db acc = .ok storage) {key slot text : String} :
    (∃ m, storage[key]? = some m ∧ m[slot]? = some text)
      ↔ ∃ a s v, acc.HasSlot a s ∧ db.storageRef a s = .ok v
        ∧ key = a.toHex ∧ slot = B256.toHex s ∧ text = v.toHex := by
  constructor
  · intro hx
    obtain ⟨m, hm, htext⟩ := hx
    obtain ⟨a, slots, ha, _, hp⟩ := (sliceStorage_getElem? h).mp hm
    obtain ⟨hkey, hslots⟩ := sliceSlots_getElem? hp
    obtain ⟨s, v, hs, hv, hslot, hval⟩ := (hslots slot text).mp htext
    exact ⟨a, s, v, ⟨slots, ha, ExtTreeSet.mem_toList.mp hs⟩, hv, hkey, hslot, hval⟩
  · intro hx
    obtain ⟨a, s, v, hs, hv, rfl, rfl, rfl⟩ := hx
    exact sliceStorage_slot h hs hv

/-- An account without recorded slots has no entry. -/
theorem exists_slot_of_sliceStorage (h : sliceStorage db acc = .ok storage) {key : String}
    {m : HashMap String String} (hm : storage[key]? = some m) :
    ∃ (slot : String) (text : String), m[slot]? = some text := by
  obtain ⟨a, slots, ha, hne, hp⟩ := (sliceStorage_getElem? h).mp hm
  obtain ⟨_, hslots⟩ := sliceSlots_getElem? hp
  have hlist : slots.toList.isEmpty = false := by rw [ExtTreeSet.isEmpty_toList, hne]
  obtain ⟨s, hs⟩ := List.exists_mem_of_ne_nil _ (List.isEmpty_eq_false_iff.mp hlist)
  -- a slot that could not be read would have failed the whole slice
  obtain ⟨v, hv⟩ := storageRef_of_sliceSlots hp hs
  exact ⟨B256.toHex s, v.toHex, (hslots _ _).mpr ⟨s, v, hs, hv, rfl, rfl⟩⟩

end Storage

/--
**Recorded storage accesses are exact.** Whatever an execution asks and however it ends,
the inspector holds the pairs its opcodes looked at; and a prefetch that answers sends
those of its own execution, with the values from before the call.
-/
theorem recorded_slots_exact (evm : Evm) (db : StateDb) (spec : ChainSpec) :
    (∀ {ε : Type} (e : Execution) (view : (q : Query) → Except ε q.Answer) (a : Address) (s : B256),
      (inspect (e.asked view)).HasSlot a s ↔ ∃ i, .step i ∈ e.asked view ∧ i.accessesSlot a s)
    ∧ ∀ (req : PrefetchRequest) (resp : PrefetchResponse),
        postPrefetch evm db spec req = .ok resp →
        ∃ call, req.parse = .ok call
          ∧ (∀ key slot text : String,
              (∃ m, resp.stateSlice.storage[key]? = some m ∧ m[slot]? = some text)
                ↔ ∃ a s o,
                  (∃ i, .step i ∈ (prefetchExecution evm spec db.headOrZero call).asked db.view
                    ∧ i.accessesSlot a s)
                  ∧ db.getStorage a s = .ok o ∧ key = a.toHex ∧ slot = B256.toHex s
                  ∧ text = (o.getD 0).toHex)
          ∧ ∀ (key : String) (m : HashMap String String), resp.stateSlice.storage[key]? = some m →
              ∃ slot text : String, m[slot]? = some text := by
  constructor
  · intro ε e view a s
    exact hasSlot_inspect
  intro req resp h
  unfold postPrefetch at h
  cases hcall : req.parse with
  | error e =>
      rw [hcall] at h
      cases h
  | ok call =>
      rw [hcall] at h
      obtain ⟨_, slice, _, hslice, rfl, _⟩ := prefetch_ok h
      obtain ⟨storage, hstorage, hparts⟩ := stateSlice_ok hslice
      rw [hparts]
      refine ⟨call, rfl, fun key slot text => ?_, fun key m hm => ?_⟩
      · rw [slot_mem_sliceStorage hstorage]
        simp only [hasSlot_accesses, StateDb.storageRef_eq_ok]
        constructor
        · intro hx
          obtain ⟨a, s, v, hi, ⟨o, ho, rfl⟩, hkey, hslot, htext⟩ := hx
          exact ⟨a, s, o, hi, ho, hkey, hslot, htext⟩
        · intro hx
          obtain ⟨a, s, o, hi, ho, hkey, hslot, htext⟩ := hx
          exact ⟨a, s, o.getD 0, hi, ⟨o, ho, rfl⟩, hkey, hslot, htext⟩
      · exact exists_slot_of_sliceStorage hstorage hm

/-! ## A proxy that writes, and a frame that is reverted -/

/--
A proxy reads slot 1, lets a library overwrite it, and calls a contract whose own
write is reverted.
-/
def proxyReplay (_ : CfgEnv) (_ : BlockEnv) (_ : TxEnv) : Execution :=
  .ask (.step ⟨Opcode.SLOAD, 0xA, [1]⟩) fun _ => .ask (.storage 0xA 1) fun v =>
    .ask (.step ⟨Opcode.DELEGATECALL, 0xA, [50000, 0xB]⟩) fun _ =>
      -- the library runs on the storage of the proxy
      .ask (.step ⟨Opcode.SSTORE, 0xA, [1, v + 1]⟩) fun _ =>
        .ask (.step ⟨Opcode.CALL, 0xA, [50000, 0xC]⟩) fun _ =>
          .ask (.step ⟨Opcode.SSTORE, 0xC, [2, 7]⟩) fun _ =>
            .done (.ok ⟨.success [] 50000, ∅⟩)

/-- revm with that one execution. -/
def Evm.proxying : Evm :=
  .ofCacheDb (fun _ => KECCAK256_EMPTY) proxyReplay fun _ _ _ => .done (.ok ⟨.success [] 0, ∅⟩)

/-- The proxy with 5 in its slot. -/
def proxyDb : StateDb := StateDb.empty.commit [.setAccount 0xA ⟨1, 0, 0⟩, .setStorage 0xA 1 5]

/-- Both slots are in the slice: the overwritten one as it was before, the reverted one as zero. -/
theorem recorded_slots_exact_proxy :
    ∃ resp, postPrefetch .proxying proxyDb ethereumMainnet
        (RemoteDb.prefetchRequest 0xA [] none none) = .ok resp
      ∧ (∃ m, resp.stateSlice.storage[Address.toHex 0xA]? = some m
          ∧ m[B256.toHex 1]? = some (U256.toHex 5))
      ∧ ∃ m, resp.stateSlice.storage[Address.toHex 0xC]? = some m
          ∧ m[B256.toHex 2]? = some (U256.toHex 0) := by
  have hok : (prefetch .proxying proxyDb ethereumMainnet ⟨0xA, 0, [], 0⟩).isOk = true := by decide
  have hpost : postPrefetch .proxying proxyDb ethereumMainnet
      (RemoteDb.prefetchRequest 0xA [] none none)
        = prefetch .proxying proxyDb ethereumMainnet ⟨0xA, 0, [], 0⟩ := by
    rw [postPrefetch, RemoteDb.parse_prefetchRequest]
    rfl
  cases hp : prefetch .proxying proxyDb ethereumMainnet ⟨0xA, 0, [], 0⟩ with
  | error err =>
      rw [hp] at hok
      cases hok
  | ok resp =>
      rw [hp] at hpost
      obtain ⟨call, hcall, hslots, _⟩ :=
        (recorded_slots_exact .proxying proxyDb ethereumMainnet).2 _ _ hpost
      rw [RemoteDb.parse_prefetchRequest] at hcall
      obtain rfl := Except.ok.inj hcall
      have hread : ⟨Opcode.SLOAD, 0xA, [1]⟩ ∈ stepsOf ((prefetchExecution .proxying ethereumMainnet
          proxyDb.headOrZero ⟨0xA, 0, [], 0⟩).asked proxyDb.view) := by decide
      have hreverted : ⟨Opcode.SSTORE, 0xC, [2, 7]⟩ ∈ stepsOf ((prefetchExecution .proxying
          ethereumMainnet proxyDb.headOrZero ⟨0xA, 0, [], 0⟩).asked proxyDb.view) := by decide
      exact ⟨resp, hpost,
        (hslots _ _ _).mpr ⟨0xA, 1, some 5, ⟨_, mem_stepsOf.mp hread, .inl rfl, rfl, rfl⟩,
          by decide, rfl, rfl, rfl⟩,
        (hslots _ _ _).mpr ⟨0xC, 2, none, ⟨_, mem_stepsOf.mp hreverted, .inr rfl, rfl, rfl⟩,
          by decide, rfl, rfl, rfl⟩⟩

end EvmState
