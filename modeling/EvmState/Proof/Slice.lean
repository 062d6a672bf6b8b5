import EvmState.Client.Wasm
import EvmState.Proof.SmallEvm

/-!
# What a prefetch slice is good for

The inspector records what it sees opcodes access. `LoadRules` says what an
execution loads and why; against it stand the gaps of the inspector: the accounts
that calls, creations and self-destructs name are loaded and not recorded. A slice
holds everything the execution loaded, and re-executing on it gives the same
outcome, exactly when no existing account is loaded through such a gap alone
(`prefetch_sufficient_iff`).
-/

namespace EvmState

open Std

/-! ## What the inspector records -/

namespace Accesses

/-- The address is recorded. -/
def Has (acc : Accesses) (a : Address) : Prop := ∃ slots, acc[a]? = some slots

/-- The slot is recorded. -/
def HasSlot (acc : Accesses) (a : Address) (s : B256) : Prop := ∃ slots, acc[a]? = some slots ∧ s ∈ slots

theorem HasSlot.has {acc : Accesses} {a : Address} {s : B256} (h : acc.HasSlot a s) : acc.Has a := by
  obtain ⟨slots, hs, _⟩ := h
  exact ⟨slots, hs⟩

theorem has_touch {acc : Accesses} {a b : Address} : (acc.touch b).Has a ↔ b = a ∨ acc.Has a := by
  simp only [Has, touch, ExtTreeMap.getElem?_alter, Std.compare_eq_iff_eq]
  split
  · rename_i heq
    subst heq
    cases acc[b]? <;> simp
  · rename_i hne
    simp [hne]

theorem hasSlot_touch {acc : Accesses} {a b : Address} {s : B256} :
    (acc.touch b).HasSlot a s ↔ acc.HasSlot a s := by
  simp only [HasSlot, touch, ExtTreeMap.getElem?_alter, Std.compare_eq_iff_eq]
  split
  · rename_i heq
    subst heq
    cases acc[b]? <;> simp
  · rfl

theorem has_insertSlot {acc : Accesses} {a b : Address} {t : B256} :
    (acc.insertSlot b t).Has a ↔ b = a ∨ acc.Has a := by
  simp only [Has, insertSlot, ExtTreeMap.getElem?_alter, Std.compare_eq_iff_eq]
  split
  · rename_i heq
    simp [heq]
  · rename_i hne
    simp [hne]

theorem hasSlot_insertSlot {acc : Accesses} {a b : Address} {s t : B256} :
    (acc.insertSlot b t).HasSlot a s ↔ (b = a ∧ t = s) ∨ acc.HasSlot a s := by
  simp only [HasSlot, insertSlot, ExtTreeMap.getElem?_alter, Std.compare_eq_iff_eq]
  split
  · rename_i heq
    subst heq
    cases acc[b]? <;> simp [ExtTreeSet.mem_insert]
  · rename_i hne
    simp [hne]

end Accesses

namespace Interp

/-- The opcode reads or writes a slot. -/
def accessesSlot (i : Interp) (a : Address) (s : B256) : Prop :=
  (i.opcode = Opcode.SLOAD ∨ i.opcode = Opcode.SSTORE) ∧ i.targetAddress = a
    ∧ i.stack.head? = some s

/-- The opcode looks at an account whose address is on top of the stack. -/
def looksAt (i : Interp) (a : Address) : Prop :=
  (i.opcode = Opcode.BALANCE ∨ i.opcode = Opcode.EXTCODEHASH ∨ i.opcode = Opcode.EXTCODESIZE
      ∨ i.opcode = Opcode.EXTCODECOPY)
    ∧ i.stack.head?.map addressFromWord = some a

/-- The inspector records the account at this opcode. -/
def records (i : Interp) (a : Address) : Prop :=
  (∃ s, i.accessesSlot a s) ∨ i.looksAt a ∨ i.opcode = Opcode.SELFBALANCE ∧ i.targetAddress = a

/--
The opcode reaches an account that the inspector does not look for: the callee of
a call, the beneficiary of a self-destruct, the new account of a creation (whose
address is a hash and could be any).
-/
def reaches (i : Interp) (a : Address) : Prop :=
  (i.opcode = Opcode.CALL ∨ i.opcode = Opcode.CALLCODE ∨ i.opcode = Opcode.DELEGATECALL
      ∨ i.opcode = Opcode.STATICCALL) ∧ (i.stack[1]?).map addressFromWord = some a
    -- the calls of the newer object format have the callee on top
    ∨ (i.opcode = Opcode.EXTCALL ∨ i.opcode = Opcode.EXTDELEGATECALL
        ∨ i.opcode = Opcode.EXTSTATICCALL ∨ i.opcode = Opcode.SELFDESTRUCT)
      ∧ i.stack.head?.map addressFromWord = some a
    ∨ i.opcode = Opcode.CREATE ∨ i.opcode = Opcode.CREATE2 ∨ i.opcode = Opcode.EOFCREATE

end Interp

theorem has_inspectorStep {acc : Accesses} {i : Interp} {a : Address} :
    (inspectorStep acc i).Has a ↔ i.records a ∨ acc.Has a := by
  unfold inspectorStep
  split
  · rename_i hop
    -- the opcodes of the branches differ, so only one reason to record applies
    have hlooks : ¬ i.looksAt a := by
      intro hx
      obtain ⟨hl, _⟩ := hx
      rcases hop with hop | hop <;> rw [hop] at hl <;> revert hl <;> decide
    have hself : ¬ (i.opcode = Opcode.SELFBALANCE ∧ i.targetAddress = a) := by
      intro hx
      obtain ⟨hl, _⟩ := hx
      rcases hop with hop | hop <;> rw [hop] at hl <;> revert hl <;> decide
    have hrec : i.records a ↔ i.targetAddress = a ∧ ∃ s, i.stack.head? = some s := by
      simp only [Interp.records, hlooks, hself, or_false, Interp.accessesSlot, hop, true_and,
        exists_and_left]
    rw [hrec]
    cases hs : i.stack.head? with
    | none => simp
    | some slot => simp [Accesses.has_insertSlot]
  · rename_i hop
    have hslot : ¬ ∃ s, i.accessesSlot a s := fun ⟨_, h, _⟩ => hop h
    split
    · rename_i hlook
      have hself : ¬ (i.opcode = Opcode.SELFBALANCE ∧ i.targetAddress = a) := by
        intro hx
        obtain ⟨hl, _⟩ := hx
        rcases hlook with hop | hop | hop | hop <;> rw [hop] at hl <;> revert hl <;> decide
      have hrec : i.records a ↔ i.stack.head?.map addressFromWord = some a := by
        simp only [Interp.records, hslot, hself, or_false, false_or, Interp.looksAt, hlook, true_and]
      rw [hrec]
      cases hs : i.stack.head? with
      | none => simp
      | some word => simp [Accesses.has_touch]
    · rename_i hlook
      have hlooks : ¬ i.looksAt a := fun h => hlook h.1
      split
      · rename_i hself
        simp [Interp.records, hslot, hlooks, hself, Accesses.has_touch]
      · rename_i hself
        simp [Interp.records, hslot, hlooks, hself]

theorem hasSlot_inspectorStep {acc : Accesses} {i : Interp} {a : Address} {s : B256} :
    (inspectorStep acc i).HasSlot a s ↔ i.accessesSlot a s ∨ acc.HasSlot a s := by
  unfold inspectorStep
  split
  · rename_i hop
    simp only [Interp.accessesSlot, hop, true_and]
    cases hs : i.stack.head? with
    | none => simp
    | some slot => simp [Accesses.hasSlot_insertSlot]
  · rename_i hop
    -- no other opcode is recorded with a slot
    have hslot : ¬ i.accessesSlot a s := fun h => hop h.1
    simp only [hslot, false_or]
    split
    · cases i.stack.head? with
      | none => rfl
      | some word => exact Accesses.hasSlot_touch
    · split
      · exact Accesses.hasSlot_touch
      · rfl

theorem mem_stepsOf {asked : List Query} {i : Interp} : i ∈ stepsOf asked ↔ .step i ∈ asked := by
  unfold stepsOf
  rw [List.mem_filterMap]
  constructor
  · intro hx
    obtain ⟨q, hq, h⟩ := hx
    cases q <;> simp only [reduceCtorEq, Option.some.injEq] at h
    exact h ▸ hq
  · exact fun h => ⟨_, h, rfl⟩

/-- **The accounts an inspected execution records.** -/
theorem has_inspect {asked : List Query} {a : Address} :
    (inspect asked).Has a ↔ ∃ i, .step i ∈ asked ∧ i.records a := by
  simp only [← mem_stepsOf, inspect]
  -- the inspector folds over the opcodes: the last one is added to what the others gave
  induction stepsOf asked using List.reverseRecOn with
  | nil => simp [Accesses.Has]
  | append_singleton l i ih =>
      rw [List.foldl_concat, has_inspectorStep, ih]
      simp only [List.mem_append, List.mem_singleton, or_and_right, exists_or, exists_eq_left]
      exact or_comm

/-- **The slots it records.** -/
theorem hasSlot_inspect {asked : List Query} {a : Address} {s : B256} :
    (inspect asked).HasSlot a s ↔ ∃ i, .step i ∈ asked ∧ i.accessesSlot a s := by
  simp only [← mem_stepsOf, inspect]
  induction stepsOf asked using List.reverseRecOn with
  | nil => simp [Accesses.HasSlot]
  | append_singleton l i ih =>
      rw [List.foldl_concat, hasSlot_inspectorStep, ih]
      simp only [List.mem_append, List.mem_singleton, or_and_right, exists_or, exists_eq_left]
      exact or_comm

theorem has_accesses {call : ViewCall} {asked : List Query} {a : Address} :
    (call.accesses asked).Has a
      ↔ call.toAddr = a ∨ call.fromAddr = a ∨ ∃ i, .step i ∈ asked ∧ i.records a := by
  rw [ViewCall.accesses, Accesses.has_touch, Accesses.has_touch, has_inspect]

theorem hasSlot_accesses {call : ViewCall} {asked : List Query} {a : Address} {s : B256} :
    (call.accesses asked).HasSlot a s ↔ ∃ i, .step i ∈ asked ∧ i.accessesSlot a s := by
  rw [ViewCall.accesses, Accesses.hasSlot_touch, Accesses.hasSlot_touch, hasSlot_inspect]

/-! ## What the slice holds -/

section Contents

variable {db : StateDb} {acc : Accesses} {a : Address} {s : B256}

theorem mem_toList_accesses {slots : ExtTreeSet B256 compare} :
    (a, slots) ∈ acc.toList ↔ acc[a]? = some slots :=
  ExtTreeMap.mem_toList_iff_getElem?_eq_some

theorem sliceAccount_eq_some {key : String} {r : AccountResponse} :
    sliceAccount db a = some (key, r)
      ↔ ∃ info, db.getAccount a = .ok (some info) ∧ key = a.toHex ∧ r = .ofInfo info := by
  constructor
  · intro h
    unfold sliceAccount at h
    split at h
    · rename_i info hinfo
      simp only [Option.some.injEq, Prod.mk.injEq] at h
      exact ⟨info, hinfo, h.1.symm, h.2.symm⟩
    · cases h
  · intro hx
    obtain ⟨info, hinfo, rfl, rfl⟩ := hx
    rw [sliceAccount, hinfo]

theorem sliceAccountCode_eq_some {key text : String} :
    sliceAccountCode db a = some (key, text)
      ↔ ∃ info raw, db.getAccount a = .ok (some info) ∧ info.codeHash ≠ 0
        ∧ info.codeHash ≠ KECCAK256_EMPTY ∧ db.getCode info.codeHash = some raw
        ∧ key = B256.toHex info.codeHash ∧ text = bytesToHex raw := by
  constructor
  · intro h
    unfold sliceAccountCode at h
    split at h
    · rename_i info hinfo
      split at h
      · rename_i hne
        obtain ⟨raw, hraw, heq⟩ := Option.map_eq_some_iff.mp h
        simp only [Prod.mk.injEq] at heq
        exact ⟨info, raw, hinfo, hne.1, hne.2, hraw, heq.1.symm, heq.2.symm⟩
      · cases h
    · cases h
  · intro hx
    obtain ⟨info, raw, hinfo, h0, h1, hraw, rfl, rfl⟩ := hx
    rw [sliceAccountCode, hinfo]
    dsimp only
    rw [if_pos ⟨h0, h1⟩, hraw, Option.map_some]

/-- The records in the slice are those of recorded accounts. -/
theorem sliceAccounts_getElem? {key : String} {r : AccountResponse} :
    (sliceAccounts db acc)[key]? = some r
      ↔ ∃ a info, acc.Has a ∧ db.getAccount a = .ok (some info)
        ∧ key = a.toHex ∧ r = .ofInfo info := by
  have hmem : ∀ key r, (key, r) ∈ acc.toList.filterMap (fun e => sliceAccount db e.1)
      ↔ ∃ a info, acc.Has a ∧ db.getAccount a = .ok (some info)
        ∧ key = a.toHex ∧ r = .ofInfo info := by
    intro key r
    rw [List.mem_filterMap]
    constructor
    · intro hx
      obtain ⟨⟨a, slots⟩, he, h⟩ := hx
      obtain ⟨info, hrest⟩ := sliceAccount_eq_some.mp h
      exact ⟨a, info, ⟨slots, mem_toList_accesses.mp he⟩, hrest⟩
    · intro hx
      obtain ⟨a, info, ⟨slots, ha⟩, hrest⟩ := hx
      exact ⟨(a, slots), mem_toList_accesses.mpr ha, sliceAccount_eq_some.mpr ⟨info, hrest⟩⟩
  rw [← hmem key r]
  -- two records under one key belong to one address
  refine Maps.insertAll_empty_getElem?_iff fun r r' h h' => ?_
  obtain ⟨a, info, _, hinfo, hkey, rfl⟩ := (hmem key r).mp h
  obtain ⟨a', info', _, hinfo', hkey', rfl⟩ := (hmem key r').mp h'
  obtain rfl := Address.toHex_inj (hkey.symm.trans hkey')
  rw [hinfo] at hinfo'
  rw [Option.some.inj (Except.ok.inj hinfo')]

/-- The code in the slice is that of recorded accounts with a hash of their own. -/
theorem sliceCode_getElem? {key : String} {text : String} :
    (sliceCode db acc)[key]? = some text
      ↔ ∃ a info raw, acc.Has a ∧ db.getAccount a = .ok (some info) ∧ info.codeHash ≠ 0
        ∧ info.codeHash ≠ KECCAK256_EMPTY ∧ db.getCode info.codeHash = some raw
        ∧ key = B256.toHex info.codeHash ∧ text = bytesToHex raw := by
  have hmem : ∀ key text, (key, text) ∈ acc.toList.filterMap (fun e => sliceAccountCode db e.1)
      ↔ ∃ a info raw, acc.Has a ∧ db.getAccount a = .ok (some info)
        ∧ info.codeHash ≠ 0 ∧ info.codeHash ≠ KECCAK256_EMPTY
        ∧ db.getCode info.codeHash = some raw
        ∧ key = B256.toHex info.codeHash ∧ text = bytesToHex raw := by
    intro key text
    rw [List.mem_filterMap]
    constructor
    · intro hx
      obtain ⟨⟨a, slots⟩, he, h⟩ := hx
      obtain ⟨info, raw, hrest⟩ := sliceAccountCode_eq_some.mp h
      exact ⟨a, info, raw, ⟨slots, mem_toList_accesses.mp he⟩, hrest⟩
    · intro hx
      obtain ⟨a, info, raw, ⟨slots, ha⟩, hrest⟩ := hx
      exact ⟨(a, slots), mem_toList_accesses.mpr ha,
        sliceAccountCode_eq_some.mpr ⟨info, raw, hrest⟩⟩
  rw [← hmem key text]
  -- accounts may share code, but a hash has only one
  refine Maps.insertAll_empty_getElem?_iff fun text text' h h' => ?_
  obtain ⟨_, info, raw, _, _, _, _, hraw, hkey, rfl⟩ := (hmem key text).mp h
  obtain ⟨_, info', raw', _, _, _, _, hraw', hkey', rfl⟩ := (hmem key text').mp h'
  rw [← B256.toHex_inj (hkey.symm.trans hkey'), hraw] at hraw'
  rw [Option.some.inj hraw']

/-- The slots of one account in the slice. -/
theorem sliceSlots_getElem? {slots : List B256} {key : String} {m : HashMap String String}
    (h : sliceSlots db a slots = .ok (key, m)) :
    key = a.toHex ∧ ∀ k text, m[k]? = some text
      ↔ ∃ s v, s ∈ slots ∧ db.storageRef a s = .ok v ∧ k = B256.toHex s ∧ text = v.toHex := by
  unfold sliceSlots at h
  split at h
  · rename_i values hvalues
    simp only [Except.ok.injEq, Prod.mk.injEq] at h
    obtain ⟨rfl, rfl⟩ := h
    -- each slot was read, and the texts are those of its value
    have hall := Lists.forall₂_of_mapM_ok hvalues
    have hmem : ∀ k text, (k, text) ∈ values
        ↔ ∃ s v, s ∈ slots ∧ db.storageRef a s = .ok v ∧ k = B256.toHex s ∧ text = v.toHex := by
      intro k text
      constructor
      · intro hin
        obtain ⟨s, hs, hv⟩ := Lists.exists_mem_left hall hin
        cases hr : db.storageRef a s with
        | error e => simp [hr, Except.map] at hv
        | ok v =>
            simp only [hr, Except.map, Except.ok.injEq, Prod.mk.injEq] at hv
            exact ⟨s, v, hs, hr, hv.1.symm, hv.2.symm⟩
      · intro hx
        obtain ⟨s, v, hs, hr, rfl, rfl⟩ := hx
        obtain ⟨b, hb, hv⟩ := Lists.exists_mem_right hall hs
        simp only [hr, Except.map, Except.ok.injEq] at hv
        exact hv ▸ hb
    refine ⟨rfl, fun k text => ?_⟩
    rw [← hmem k text]
    -- two entries under one key are for one slot
    refine Maps.insertAll_empty_getElem?_iff fun text text' hk h' => ?_
    obtain ⟨s, v, _, hv, hkey, rfl⟩ := (hmem k text).mp hk
    obtain ⟨s', v', _, hv', hkey', rfl⟩ := (hmem k text').mp h'
    obtain rfl := B256.toHex_inj (hkey.symm.trans hkey')
    rw [hv] at hv'
    rw [Except.ok.inj hv']
  · cases h

/-- The storage in the slice is that of the recorded slots. -/
theorem sliceStorage_getElem? {storage : HashMap String (HashMap String String)}
    (h : sliceStorage db acc = .ok storage) {key : String} {m : HashMap String String} :
    storage[key]? = some m
      ↔ ∃ a slots, acc[a]? = some slots ∧ slots.isEmpty = false
        ∧ sliceSlots db a slots.toList = .ok (key, m) := by
  unfold sliceStorage at h
  cases hparts : (acc.toList.filter (fun e => !e.2.isEmpty)).mapM
      (fun e => sliceSlots db e.1 e.2.toList) with
  | error e => simp [hparts, Except.map] at h
  | ok parts =>
      simp only [hparts, Except.map, Except.ok.injEq] at h
      subst h
      have hall := Lists.forall₂_of_mapM_ok hparts
      -- an account stands in the slice with all of its recorded slots
      have hmem : ∀ key m, (key, m) ∈ parts ↔ ∃ a slots, acc[a]? = some slots
          ∧ slots.isEmpty = false ∧ sliceSlots db a slots.toList = .ok (key, m) := by
        intro key m
        constructor
        · intro hin
          obtain ⟨⟨a, slots⟩, he, hp⟩ := Lists.exists_mem_left hall hin
          obtain ⟨he, hne⟩ := List.mem_filter.mp he
          exact ⟨a, slots, mem_toList_accesses.mp he, by simpa using hne, hp⟩
        · intro hx
          obtain ⟨a, slots, ha, hne, hp⟩ := hx
          have he : (a, slots) ∈ acc.toList.filter (fun e => !e.2.isEmpty) :=
            List.mem_filter.mpr ⟨mem_toList_accesses.mpr ha, by simp [hne]⟩
          obtain ⟨b, hb, hp'⟩ := Lists.exists_mem_right hall he
          exact Except.ok.inj (hp'.symm.trans hp) ▸ hb
      rw [← hmem key m]
      refine Maps.insertAll_empty_getElem?_iff fun m m' hk h' => ?_
      obtain ⟨a, slots, ha, _, hp⟩ := (hmem key m).mp hk
      obtain ⟨a', slots', ha', _, hp'⟩ := (hmem key m').mp h'
      -- the key tells the address
      obtain rfl := Address.toHex_inj ((sliceSlots_getElem? hp).1.symm.trans
        (sliceSlots_getElem? hp').1)
      rw [ha] at ha'
      obtain rfl := Option.some.inj ha'
      rw [hp] at hp'
      simpa using hp'.symm

/-- Every account with recorded slots has its part. -/
theorem sliceSlots_of_sliceStorage {storage : HashMap String (HashMap String String)}
    (h : sliceStorage db acc = .ok storage) {slots : ExtTreeSet B256 compare}
    (ha : acc[a]? = some slots) (hne : slots.isEmpty = false) :
    ∃ key m, sliceSlots db a slots.toList = .ok (key, m) := by
  unfold sliceStorage at h
  cases hparts : (acc.toList.filter (fun e => !e.2.isEmpty)).mapM
      (fun e => sliceSlots db e.1 e.2.toList) with
  | error e => simp [hparts, Except.map] at h
  | ok parts =>
      have he : (a, slots) ∈ acc.toList.filter (fun e => !e.2.isEmpty) :=
        List.mem_filter.mpr ⟨mem_toList_accesses.mpr ha, by simp [hne]⟩
      obtain ⟨⟨key, m⟩, _, hp⟩ := Lists.exists_mem_right (Lists.forall₂_of_mapM_ok hparts) he
      exact ⟨key, m, hp⟩

/-- A recorded slot is in the slice. -/
theorem sliceStorage_slot {storage : HashMap String (HashMap String String)}
    (hst : sliceStorage db acc = .ok storage) {v : U256} (hs : acc.HasSlot a s)
    (hv : db.storageRef a s = .ok v) :
    ∃ slots, storage[a.toHex]? = some slots ∧ slots[B256.toHex s]? = some v.toHex := by
  obtain ⟨slots, ha, hs⟩ := hs
  have hs := ExtTreeSet.mem_toList.mpr hs
  have hne : slots.isEmpty = false := by
    rw [← ExtTreeSet.isEmpty_toList, List.isEmpty_eq_false_iff]
    exact List.ne_nil_of_mem hs
  obtain ⟨key, m, hp⟩ := sliceSlots_of_sliceStorage hst ha hne
  obtain ⟨rfl, hslots⟩ := sliceSlots_getElem? hp
  exact ⟨m, (sliceStorage_getElem? hst).mpr ⟨a, slots, ha, hne, hp⟩,
    (hslots _ _).mpr ⟨s, v, hs, hv, rfl, rfl⟩⟩

/-- The parts of a slice. -/
theorem stateSlice_ok {slice : StateSlice} (h : stateSlice db acc = .ok slice) :
    ∃ storage, sliceStorage db acc = .ok storage
      ∧ slice = ⟨sliceAccounts db acc, storage, sliceCode db acc⟩ := by
  unfold stateSlice at h
  cases hst : sliceStorage db acc with
  | error e =>
      rw [hst] at h
      cases h
  | ok storage =>
      rw [hst] at h
      exact ⟨storage, rfl, (Except.ok.inj h).symm⟩

end Contents

/-! ## What a client files from it -/

/-- What filing a slice for the recorded accesses puts into a cache. -/
def Filed (db : StateDb) (acc : Accesses) : CachePut → Prop
  | .account a info => acc.Has a ∧ db.getAccount a = .ok (some info)
  | .storage a s v => acc.HasSlot a s ∧ db.storageRef a s = .ok v
  | .code h b =>
      (∃ a info, acc.Has a ∧ db.getAccount a = .ok (some info) ∧ info.codeHash = h)
        ∧ h ≠ 0 ∧ h ≠ KECCAK256_EMPTY ∧ db.getCode h = some b

section Puts

variable {db : StateDb} {acc : Accesses} {slice : StateSlice}

/-- What the server printed parses, so no entry is passed over and none fails. -/
theorem filed_of_mem_puts (h : stateSlice db acc = .ok slice) {x : Except ClientError CachePut}
    (hx : x ∈ slice.puts) : ∃ p, x = .ok p ∧ Filed db acc p := by
  obtain ⟨storage, hst, rfl⟩ := stateSlice_ok h
  simp only [StateSlice.puts, List.mem_append, List.mem_filterMap, List.mem_flatMap,
    Prod.exists, ExtTreeMap.mem_toList_iff_getElem?_eq_some] at hx
  -- an entry of one of the three maps, each written from the database
  rcases hx with (⟨key, r, hr, hx⟩ | ⟨key, m, hm, hx⟩) | ⟨key, text, ht, hx⟩
  · obtain ⟨a, info, ha, hinfo, rfl, rfl⟩ := sliceAccounts_getElem?.mp hr
    simp only [Address.parse_toHex, Option.map_some, AccountResponse.decode_ofInfo,
      Except.map, Option.some.injEq] at hx
    exact ⟨_, hx.symm, ha, hinfo⟩
  · obtain ⟨a, slots, ha, _, hp⟩ := (sliceStorage_getElem? hst).mp hm
    obtain ⟨rfl, hslots⟩ := sliceSlots_getElem? hp
    simp only [Address.parse_toHex, List.mem_filterMap, Prod.exists,
      ExtTreeMap.mem_toList_iff_getElem?_eq_some] at hx
    obtain ⟨k, text, hk, hx⟩ := hx
    obtain ⟨s, v, hs, hv, rfl, rfl⟩ := (hslots k text).mp hk
    simp only [B256.parse_toHex, Option.map_some, parseU256_toHex, Except.map,
      Option.some.injEq] at hx
    exact ⟨_, hx.symm, ⟨slots, ha, ExtTreeSet.mem_toList.mp hs⟩, hv⟩
  · obtain ⟨a, info, raw, ha, hinfo, h0, h1, hraw, rfl, rfl⟩ := sliceCode_getElem?.mp ht
    simp only [B256.parse_toHex, Option.map_some, decodeBytes_bytesToHex, Except.map,
      Option.some.injEq] at hx
    exact ⟨_, hx.symm, ⟨a, info, ha, hinfo, rfl⟩, h0, h1, hraw⟩

/-- Whatever is recorded and there is filed. -/
theorem mem_puts_of_filed (h : stateSlice db acc = .ok slice) {p : CachePut}
    (hp : Filed db acc p) : .ok p ∈ slice.puts := by
  obtain ⟨storage, hst, rfl⟩ := stateSlice_ok h
  simp only [StateSlice.puts, List.mem_append, List.mem_filterMap, List.mem_flatMap,
    Prod.exists, ExtTreeMap.mem_toList_iff_getElem?_eq_some]
  -- what is to be filed is in the slice, and its texts are read back
  cases p with
  | account a info =>
      refine .inl (.inl ⟨a.toHex, .ofInfo info,
        sliceAccounts_getElem?.mpr ⟨a, info, hp.1, hp.2, rfl, rfl⟩, ?_⟩)
      simp [Except.map]
  | storage a s v =>
      obtain ⟨slots, hslots, hvalue⟩ := sliceStorage_slot hst hp.1 hp.2
      refine .inl (.inr ⟨a.toHex, slots, hslots, ?_⟩)
      simp only [Address.parse_toHex, List.mem_filterMap, Prod.exists,
        ExtTreeMap.mem_toList_iff_getElem?_eq_some]
      exact ⟨B256.toHex s, v.toHex, hvalue, by simp [Except.map]⟩
  | code hash b =>
      obtain ⟨⟨a, info, ha, hinfo, rfl⟩, h0, h1, hraw⟩ := hp
      refine .inr ⟨B256.toHex info.codeHash, bytesToHex b,
        sliceCode_getElem?.mpr ⟨a, info, b, ha, hinfo, h0, h1, hraw, rfl, rfl⟩, ?_⟩
      simp [Except.map]

/-- **Filing a server's slice never fails**, and files what was recorded. -/
theorem puts_stateSlice (h : stateSlice db acc = .ok slice) :
    ∃ ps : List CachePut, slice.puts = ps.map Except.ok ∧ ∀ p, p ∈ ps ↔ Filed db acc p := by
  obtain ⟨ps, hps⟩ := Lists.eq_map_ok (l := slice.puts) fun x hx => by
    obtain ⟨p, rfl, _⟩ := filed_of_mem_puts h hx
    exact ⟨p, rfl⟩
  refine ⟨ps, hps, fun p => ⟨fun hp => ?_, fun hp => ?_⟩⟩
  · have hmem : .ok p ∈ slice.puts := hps ▸ List.mem_map_of_mem hp
    obtain ⟨q, heq, hq⟩ := filed_of_mem_puts h hmem
    exact Except.ok.inj heq ▸ hq
  · have hmem := mem_puts_of_filed h hp
    rw [hps, List.mem_map] at hmem
    obtain ⟨q, hq, heq⟩ := hmem
    exact Except.ok.inj heq ▸ hq

end Puts

namespace WasmCache

open CachePut

/-- Filing a list of puts fills each map with its own parts. -/
theorem foldl_put (ps : List CachePut) (c : WasmCache) :
    ps.foldl put c
      = { accounts := Maps.insertAll c.accounts (ps.filterMap accountPart)
          storage := Maps.insertAll c.storage (ps.filterMap storagePart)
          code := Maps.insertAll c.code (ps.filterMap codePart) } := by
  induction ps generalizing c with
  | nil => rfl
  | cons p ps ih =>
      rw [List.foldl_cons, ih]
      cases p <;>
        simp [put, accountPart, storagePart, codePart, Maps.insertAll, List.filterMap_cons]

section Filed

variable {db : StateDb} {acc : Accesses} {ps : List CachePut} (hps : ∀ p, p ∈ ps ↔ Filed db acc p)

include hps

theorem accounts_filed {a : Address} {e : Option AccountInfo} :
    (ps.foldl put new).accounts[a]? = some e
      ↔ ∃ info, e = some info ∧ acc.Has a ∧ db.getAccount a = .ok (some info) := by
  have hmem : ∀ e, (a, e) ∈ ps.filterMap accountPart
      ↔ ∃ info, e = some info ∧ acc.Has a ∧ db.getAccount a = .ok (some info) := by
    intro e
    simp only [mem_accountPart, hps, Filed]
  rw [foldl_put, ← hmem e]
  refine Maps.insertAll_empty_getElem?_iff fun e e' h h' => ?_
  obtain ⟨info, rfl, _, hinfo⟩ := (hmem e).mp h
  obtain ⟨info', rfl, _, hinfo'⟩ := (hmem e').mp h'
  exact Except.ok.inj (hinfo'.symm.trans hinfo)

theorem storage_filed {a : Address} {s v : U256} :
    (ps.foldl put new).storage[(a, s)]? = some v ↔ acc.HasSlot a s ∧ db.storageRef a s = .ok v := by
  have hmem : ∀ v, ((a, s), v) ∈ ps.filterMap storagePart
      ↔ acc.HasSlot a s ∧ db.storageRef a s = .ok v := by
    intro v
    rw [mem_storagePart, hps, Filed]
  rw [foldl_put, ← hmem v]
  refine Maps.insertAll_empty_getElem?_iff fun v v' h h' => ?_
  exact Except.ok.inj (((hmem v').mp h').2.symm.trans ((hmem v).mp h).2)

theorem code_filed {h : B256} {raw : Bytes} :
    (ps.foldl put new).code[h]? = some raw ↔ Filed db acc (.code h raw) := by
  have hmem : ∀ raw, (h, raw) ∈ ps.filterMap codePart ↔ Filed db acc (.code h raw) := by
    intro raw
    rw [mem_codePart, hps]
  rw [foldl_put, ← hmem raw]
  refine Maps.insertAll_empty_getElem?_iff fun raw raw' hr hr' => ?_
  obtain ⟨_, _, _, hraw⟩ := (hmem raw).mp hr
  obtain ⟨_, _, _, hraw'⟩ := (hmem raw').mp hr'
  exact Option.some.inj (hraw'.symm.trans hraw)

/-! Where all there is of a cell was filed, the cache answers for it. -/

theorem basicRef_filed {a : Address} {o : Option AccountInfo} (hget : db.getAccount a = .ok o)
    (hhas : ∀ info, o = some info → acc.Has a) :
    ((ps.foldl put new).basicRef a).map Prod.fst = o := by
  cases hc : (ps.foldl put new).accounts[a]? with
  | some e =>
      obtain ⟨info, rfl, _, hinfo⟩ := (accounts_filed hps).mp hc
      rw [hget] at hinfo
      simp [basicRef, hc, Except.ok.inj hinfo]
  | none =>
      cases o with
      | none => simp [basicRef, hc]
      | some info =>
          rw [(accounts_filed hps).mpr ⟨info, rfl, hhas info rfl, hget⟩] at hc
          cases hc

theorem codeByHashRef_filed {h : B256}
    (hfiled : ∀ raw, db.getCode h = some raw → Filed db acc (.code h raw)) :
    (ps.foldl put new).codeByHashRef h = (db.getCode h).getD [] := by
  rw [codeByHashRef]
  cases hc : (ps.foldl put new).code[h]? with
  | some raw =>
      obtain ⟨_, _, _, hraw⟩ := (code_filed hps).mp hc
      rw [hraw]
  | none =>
      cases hraw : db.getCode h with
      | none => rfl
      | some raw =>
          rw [(code_filed hps).mpr (hfiled raw hraw)] at hc
          cases hc

end Filed

end WasmCache

/-! ## What executions load -/

/-- The account is loaded for a reason the inspector does not watch for. -/
def Reached (block : BlockEnv) (view : (q : Query) → Except DbError q.Answer) (asked : List Query)
    (a : Address) : Prop :=
  a = block.beneficiary
    ∨ (∃ i, .step i ∈ asked ∧ i.reaches a)
    -- the code of a loaded account delegates to it
    ∨ ∃ h, .codeByHash h ∈ asked ∧ view (.codeByHash h) = .ok ([0xEF, 0x01, 0x00] ++ beOf 20 a)

/-- What revm loads for a call, and why. -/
structure Evm.LoadRules (evm : Evm) : Prop where
  accounts : ∀ (cfg : CfgEnv) (block : BlockEnv) (tx : TxEnv) (target : Address)
    (view : (q : Query) → Except DbError q.Answer) (a : Address), tx.kind = .call target →
    .basic a ∈ (evm.replay cfg block tx).asked view →
      target = a ∨ tx.caller = a
        ∨ (∃ i, .step i ∈ (evm.replay cfg block tx).asked view ∧ i.records a)
        ∨ Reached block view ((evm.replay cfg block tx).asked view) a
  slots : ∀ (cfg : CfgEnv) (block : BlockEnv) (tx : TxEnv) (target : Address)
    (view : (q : Query) → Except DbError q.Answer) (a : Address) (s : U256),
    tx.kind = .call target → .storage a s ∈ (evm.replay cfg block tx).asked view →
      ∃ i, .step i ∈ (evm.replay cfg block tx).asked view ∧ i.accessesSlot a s
  code : ∀ (cfg : CfgEnv) (block : BlockEnv) (tx : TxEnv) (target : Address)
    (view : (q : Query) → Except DbError q.Answer) (h : B256),
    tx.kind = .call target → .codeByHash h ∈ (evm.replay cfg block tx).asked view →
      ∃ a info, .basic a ∈ (evm.replay cfg block tx).asked view
        ∧ view (.basic a) = .ok (some info) ∧ info.codeHash = h

/-! ## When the slice suffices -/

/-- The head a prefetch works at. -/
def StateDb.headOrZero (db : StateDb) : U64 :=
  match db.getHeadBlock with
  | .ok head => head.getD 0
  | .error _ => 0

/--
The response holds whatever the execution loaded and the database has, and running
the call again on it alone gives the outcome the server reported.
-/
structure Sufficient (db : StateDb) (e : Execution) (resp : PrefetchResponse) : Prop where
  accounts : ∀ a info, .basic a ∈ e.asked db.view → db.getAccount a = .ok (some info) →
    resp.stateSlice.accounts[a.toHex]? = some (.ofInfo info)
  storage : ∀ a s v, .storage a s ∈ e.asked db.view → db.getStorage a s = .ok (some v) →
    ∃ slots, resp.stateSlice.storage[a.toHex]? = some slots
      ∧ slots[B256.toHex s]? = some v.toHex
  code : ∀ h raw, .codeByHash h ∈ e.asked db.view → db.getCode h = some raw →
    resp.stateSlice.code[B256.toHex h]? = some (bytesToHex raw)
  again : ∃ cache result, WasmCache.new.receive resp = (cache, .ok result)
    ∧ ∃ r, e.eval cache.view = .ok (.ok r) ∧ r.result.isSuccess = result.success
      ∧ r.result.output.getD [] = result.result

/-- The call names the account itself, or by an opcode the inspector watches. -/
def ViewCall.Names (call : ViewCall) (asked : List Query) (a : Address) : Prop :=
  call.toAddr = a ∨ call.fromAddr = a ∨ ∃ i, .step i ∈ asked ∧ i.records a

/-- What a prefetch that answers has done. -/
theorem prefetch_ok {evm : Evm} {db : StateDb} {spec : ChainSpec} {call : ViewCall}
    {resp : PrefetchResponse} (h : prefetch evm db spec call = .ok resp) :
    ∃ r slice, (prefetchExecution evm spec db.headOrZero call).eval db.view = .ok (.ok r)
      ∧ stateSlice db (call.accesses ((prefetchExecution evm spec db.headOrZero call).asked db.view))
        = .ok slice
      ∧ resp.stateSlice = slice ∧ resp.result = r.result.outputHex
      ∧ resp.success = r.result.isSuccess
      ∧ ∃ acc : Accesses, resp.accessList
        = acc.toList.map fun e => ⟨e.1.toHex, e.2.toList.map B256.toHex⟩ := by
  unfold prefetch at h
  split at h
  · cases h
  · rename_i head hhead
    have hh : db.headOrZero = head.getD 0 := by rw [StateDb.headOrZero, hhead]
    rw [hh]
    dsimp only at h
    split at h
    · cases h
    · cases h
    · -- the execution came to a result, and the slice is built behind it
      rename_i r hr
      cases hs : stateSlice db (call.accesses
          ((prefetchExecution evm spec (head.getD 0) call).asked db.view)) with
      | error e =>
          rw [hs] at h
          cases h
      | ok slice =>
          rw [hs] at h
          cases h
          exact ⟨r, slice, hr, rfl, rfl, rfl, rfl, _, rfl⟩

@[simp] theorem decodeBytes_outputHex (r : ExecutionResult) :
    decodeBytes r.outputHex = .ok (r.output.getD []) := by
  unfold ExecutionResult.outputHex
  cases r.output with
  | none => decide
  | some o => simp

/-- **Filing a response never fails**: what was recorded is filed, and the result is read. -/
theorem receive_prefetch {evm : Evm} {db : StateDb} {spec : ChainSpec} {call : ViewCall}
    {resp : PrefetchResponse} (h : prefetch evm db spec call = .ok resp) :
    ∃ (ps : List CachePut) (r : ResultAndState), resp.stateSlice.puts = ps.map Except.ok
      ∧ (∀ p, p ∈ ps ↔ Filed db
          (call.accesses ((prefetchExecution evm spec db.headOrZero call).asked db.view)) p)
      ∧ (prefetchExecution evm spec db.headOrZero call).eval db.view = .ok (.ok r)
      ∧ decodeBytes resp.result = .ok (r.result.output.getD [])
      ∧ resp.success = r.result.isSuccess
      ∧ ∀ {γ : Type} (put : γ → CachePut → γ) (c : γ), resp.receive put c
          = (ps.foldl put c, .ok ⟨r.result.output.getD [], r.result.isSuccess⟩) := by
  obtain ⟨r, slice, hr, hslice, hresp, hresult, hsuccess, _⟩ := prefetch_ok h
  obtain ⟨ps, hputs, hps⟩ := puts_stateSlice hslice
  -- the output is read back from its text
  have hbytes : decodeBytes resp.result = .ok (r.result.output.getD []) := by
    rw [hresult, decodeBytes_outputHex]
  refine ⟨ps, r, hresp ▸ hputs, hps, hr, hbytes, hsuccess, fun put c => ?_⟩
  rw [PrefetchResponse.receive, hresp, hputs, Lists.runUntil_map_ok, hbytes, hsuccess]

/-- **The slice answers like the database** wherever the execution looked. -/
theorem view_filed {db : StateDb} {call : ViewCall} {asked : List Query} {ps : List CachePut}
    (hps : ∀ p, p ∈ ps ↔ Filed db (call.accesses asked) p)
    (hacc : ∀ a info, .basic a ∈ asked → db.getAccount a = .ok (some info) → call.Names asked a)
    (hslot : ∀ a s, .storage a s ∈ asked → ∃ i, .step i ∈ asked ∧ i.accessesSlot a s)
    (hcode : ∀ h, .codeByHash h ∈ asked → ∃ a info, .basic a ∈ asked
      ∧ db.view (.basic a) = .ok (some info) ∧ info.codeHash = h)
    (hempty : ∀ h, h = 0 ∨ h = KECCAK256_EMPTY → .codeByHash h ∈ asked → db.getCode h = none)
    {q : Query} (hq : q ∈ asked) {ans : q.Answer} (hans : db.view q = .ok ans) :
    (ps.foldl WasmCache.put .new).view q = .ok ans := by
  cases q with
  | step i => rfl
  | basic a =>
      have hget : db.getAccount a = .ok ans := hans
      refine congrArg Except.ok (WasmCache.basicRef_filed hps hget ?_)
      intro info hinfo
      exact has_accesses.mpr (hacc a info hq (hinfo ▸ hget))
  | storage a s =>
      refine congrArg Except.ok ?_
      rw [WasmCache.storageRef,
        (WasmCache.storage_filed hps).mpr ⟨hasSlot_accesses.mpr (hslot a s hq), hans⟩]
      rfl
  | codeByHash h =>
      have hget : (db.getCode h).getD [] = ans := Except.ok.inj hans
      refine congrArg Except.ok ((WasmCache.codeByHashRef_filed hps ?_).trans hget)
      intro raw hraw
      -- the two hashes of empty code are never sent along
      have hne : ¬ (h = 0 ∨ h = KECCAK256_EMPTY) := by
        intro htriv
        rw [hempty h htriv hq] at hraw
        cases hraw
      obtain ⟨a, info, ha, hinfo, hhash⟩ := hcode h hq
      exact ⟨⟨a, info, has_accesses.mpr (hacc a info ha hinfo), hinfo, hhash⟩,
        fun h0 => hne (.inl h0), fun h1 => hne (.inr h1), hraw⟩

section Sufficiency

variable {evm : Evm} {db : StateDb} {spec : ChainSpec} {call : ViewCall} {resp : PrefetchResponse}

/-- A slice that suffices has no gap. -/
theorem named_of_sufficient (h : prefetch evm db spec call = .ok resp)
    (hs : Sufficient db (prefetchExecution evm spec db.headOrZero call) resp) :
    let asked := (prefetchExecution evm spec db.headOrZero call).asked db.view
    (∀ a info, .basic a ∈ asked → db.getAccount a = .ok (some info) → call.Names asked a)
      ∧ ∀ hash, hash = 0 ∨ hash = KECCAK256_EMPTY → .codeByHash hash ∈ asked →
          db.getCode hash = none := by
  intro asked
  obtain ⟨_, slice, _, hslice, hresp, _, _⟩ := prefetch_ok h
  obtain ⟨storage, _, rfl⟩ := stateSlice_ok hslice
  refine ⟨fun a info ha hinfo => ?_, fun hash htriv hq => ?_⟩
  · have hsent := hs.accounts a info ha hinfo
    rw [hresp] at hsent
    obtain ⟨a', _, hhas, _, hkey, _⟩ := sliceAccounts_getElem?.mp hsent
    rw [Address.toHex_inj hkey]
    exact has_accesses.mp hhas
  · cases hraw : db.getCode hash with
    | none => rfl
    | some raw =>
        -- it would have to be sent, and code under such a hash never is
        have hsent := hs.code hash raw hq hraw
        rw [hresp] at hsent
        obtain ⟨_, info, _, _, _, h0, h1, _, hkey, _⟩ := sliceCode_getElem?.mp hsent
        rw [B256.toHex_inj hkey] at htriv
        exact absurd htriv (by simp only [h0, h1, or_self, not_false_eq_true])

/-- A slice without gaps suffices. -/
theorem sufficient_of_named (hl : evm.LoadRules) (h : prefetch evm db spec call = .ok resp)
    (hacc : ∀ a info, .basic a ∈ (prefetchExecution evm spec db.headOrZero call).asked db.view →
      db.getAccount a = .ok (some info) →
      call.Names ((prefetchExecution evm spec db.headOrZero call).asked db.view) a)
    (hempty : ∀ hash, hash = 0 ∨ hash = KECCAK256_EMPTY →
      .codeByHash hash ∈ (prefetchExecution evm spec db.headOrZero call).asked db.view →
      db.getCode hash = none) :
    Sufficient db (prefetchExecution evm spec db.headOrZero call) resp := by
  obtain ⟨_, slice, _, hslice, hresp, _, _⟩ := prefetch_ok h
  obtain ⟨storage, hst, rfl⟩ := stateSlice_ok hslice
  obtain ⟨ps, r, _, hps, hr, _, _, hreceive⟩ := receive_prefetch h
  have hslot : ∀ a s, .storage a s ∈ (prefetchExecution evm spec db.headOrZero call).asked db.view →
      ∃ i, .step i ∈ (prefetchExecution evm spec db.headOrZero call).asked db.view
        ∧ i.accessesSlot a s := fun a s => hl.slots _ _ _ _ _ a s rfl
  have hcode : ∀ hash,
      .codeByHash hash ∈ (prefetchExecution evm spec db.headOrZero call).asked db.view →
      ∃ a info, .basic a ∈ (prefetchExecution evm spec db.headOrZero call).asked db.view
        ∧ db.view (.basic a) = .ok (some info) ∧ info.codeHash = hash :=
    fun hash => hl.code _ _ _ _ _ hash rfl
  refine ⟨fun a info ha hinfo => ?_, fun a s v hq hv => ?_, fun hash raw hq hraw => ?_, ?_⟩
  · rw [hresp]
    exact sliceAccounts_getElem?.mpr
      ⟨a, info, has_accesses.mpr (hacc a info ha hinfo), hinfo, rfl, rfl⟩
  · obtain ⟨_, hi⟩ := hslot a s hq
    rw [hresp]
    exact sliceStorage_slot hst (hasSlot_accesses.mpr ⟨_, hi⟩)
      (by rw [StateDb.storageRef, hv]; rfl)
  · rw [hresp]
    obtain ⟨a, info, ha, hinfo, rfl⟩ := hcode hash hq
    -- there is code under the hash, so it is not one of empty code
    have hne : ¬ (info.codeHash = 0 ∨ info.codeHash = KECCAK256_EMPTY) := fun htriv => by
      rw [hempty _ htriv hq] at hraw
      cases hraw
    exact sliceCode_getElem?.mpr ⟨a, info, raw, has_accesses.mpr (hacc a info ha hinfo), hinfo,
      fun h0 => hne (.inl h0), fun h1 => hne (.inr h1), hraw, rfl, rfl⟩
  · -- the cache agrees with the database on everything the execution asked
    have hagain := Dialogue.eval_congr hr fun q hq ans hans =>
      view_filed hps hacc hslot hcode hempty hq hans
    exact ⟨_, _, hreceive WasmCache.put .new, r, hagain, rfl, rfl⟩

end Sufficiency

/--
**When the slice suffices.** It does exactly when every existing account that the
execution loads for a reason the inspector does not watch for is also named by the
call or a watched opcode, and no code is stored under a hash of empty code that
the execution asks for.
-/
theorem prefetch_sufficient_iff {evm : Evm} (hl : evm.LoadRules) {db : StateDb} {spec : ChainSpec}
    {call : ViewCall} {resp : PrefetchResponse} (h : prefetch evm db spec call = .ok resp) :
    let e := prefetchExecution evm spec db.headOrZero call
    let asked := e.asked db.view
    Sufficient db e resp
      ↔ (∀ a info, .basic a ∈ asked → db.getAccount a = .ok (some info) →
            Reached (prefetchBlockEnv db.headOrZero) db.view asked a → call.Names asked a)
        ∧ ∀ hash, hash = 0 ∨ hash = KECCAK256_EMPTY → .codeByHash hash ∈ asked →
            db.getCode hash = none := by
  intro e asked
  constructor
  · intro hs
    obtain ⟨hacc, hempty⟩ := named_of_sufficient h hs
    exact ⟨fun a info ha hinfo _ => hacc a info ha hinfo, hempty⟩
  · intro hx
    obtain ⟨hreached, hempty⟩ := hx
    refine sufficient_of_named hl h (fun a info ha hinfo => ?_) hempty
    -- three of the four reasons to load an account are recorded
    rcases hl.accounts _ _ _ _ _ a rfl ha with hto | hfrom | hrec | hre
    · exact .inl hto
    · exact .inr (.inl hfrom)
    · exact .inr (.inr hrec)
    · exact hreached a info ha hinfo hre

/-! ## Calls that call on -/

/-- **The small EVM loads nothing without a reason.** -/
theorem small_loadRules (keccak256 : Bytes → B256) : (Evm.small keccak256).LoadRules where
  accounts := by
    intro cfg block tx target view a hk h
    rcases SmallEvm.asked_replay cfg h with ⟨a', hq, hcaller | htarget | hcreate⟩ | hj
    · cases hq
      exact .inr (.inl hcaller.symm)
    · cases hq
      exact .inl (TxKind.call.inj (hk.symm.trans htarget))
    · cases hk.symm.trans hcreate
    · -- the only account it goes on to is that of a callee
      cases hj with
      | callee hi hop hcallee =>
          exact .inr (.inr (.inr (.inr (.inl ⟨_, hi, .inl ⟨.inl hop, hcallee⟩⟩))))
  slots := by
    intro cfg block tx target view a s _ h
    rcases SmallEvm.asked_replay cfg h with ⟨_, hq, _⟩ | hj
    · cases hq
    · cases hj
  code := by
    intro cfg block tx target view h _ hasked
    rcases SmallEvm.asked_replay cfg hasked with ⟨_, hq, _⟩ | hj
    · cases hq
    · cases hj with
      | code ha hinfo => exact ⟨_, _, ha, hinfo, rfl⟩

/-- A contract that calls another one, which returns one. -/
def forwarderDb : StateDb :=
  StateDb.empty.commit
    [.setAccount 0xC ⟨1, 0, smallKeccak256 forwardCode⟩,
      .setCode (smallKeccak256 forwardCode) forwardCode,
      .setAccount 0xD ⟨1, 5, smallKeccak256 oneCode⟩, .setCode (smallKeccak256 oneCode) oneCode]

/-- A call of it. -/
def forwarderCall : ViewCall := ⟨0xC, 0, [], 0⟩

/--
The contract that is called on is not in the slice, and the same call there returns zero where
it returned one.
-/
theorem prefetch_misses_callee :
    let evm := Evm.small smallKeccak256
    let e := prefetchExecution evm ethereumMainnet forwarderDb.headOrZero forwarderCall
    ∃ resp, evm.LoadRules
      ∧ prefetch evm forwarderDb ethereumMainnet forwarderCall = .ok resp
      ∧ Query.basic 0xD ∈ e.asked forwarderDb.view
      ∧ forwarderDb.getAccount 0xD = .ok (some ⟨1, 5, smallKeccak256 oneCode⟩)
      ∧ resp.stateSlice.accounts[Address.toHex 0xD]? = none
      ∧ decodeBytes resp.result = .ok (beOf 32 (1 : U256))
      ∧ (e.eval (WasmCache.new.receive resp).1.view).map
          (fun r => r.map (fun r => r.result.output)) = .ok (.ok (some (beOf 32 (0 : U256))))
      ∧ ¬ Sufficient forwarderDb e resp := by
  intro evm e
  have hasked : Query.basic 0xD ∈ e.asked forwarderDb.view := by decide +kernel
  have hget : forwarderDb.getAccount 0xD = .ok (some ⟨1, 5, smallKeccak256 oneCode⟩) := by decide
  have hslice : (prefetch evm forwarderDb ethereumMainnet forwarderCall).map
      (fun resp => resp.stateSlice.accounts[Address.toHex 0xD]?) = .ok none := by decide +kernel
  have hresult : (prefetch evm forwarderDb ethereumMainnet forwarderCall).map
      (fun resp => decodeBytes resp.result) = .ok (.ok (beOf 32 (1 : U256))) := by decide +kernel
  have hagain : (prefetch evm forwarderDb ethereumMainnet forwarderCall).map
      (fun resp => (e.eval (WasmCache.new.receive resp).1.view).map
        (fun r => r.map (fun r => r.result.output)))
        = .ok (.ok (.ok (some (beOf 32 (0 : U256))))) := by decide +kernel
  cases hp : prefetch evm forwarderDb ethereumMainnet forwarderCall with
  | error err => simp [hp, Except.map] at hslice
  | ok resp =>
      rw [hp] at hslice hresult hagain
      have hnone : resp.stateSlice.accounts[Address.toHex 0xD]? = none := Except.ok.inj hslice
      refine ⟨resp, small_loadRules _, rfl, hasked, hget, hnone, Except.ok.inj hresult,
        Except.ok.inj hagain, fun hs => ?_⟩
      -- the slice would have to hold the callee
      rw [hs.accounts _ _ hasked hget] at hnone
      cases hnone

theorem prefetch_sufficient_iff_forwarder :
    let evm := Evm.small smallKeccak256
    let e := prefetchExecution evm ethereumMainnet forwarderDb.headOrZero forwarderCall
    let asked := e.asked forwarderDb.view
    ∃ resp, prefetch evm forwarderDb ethereumMainnet forwarderCall = .ok resp
      ∧ (Sufficient forwarderDb e resp
        ↔ (∀ a info, .basic a ∈ asked → forwarderDb.getAccount a = .ok (some info) →
              Reached (prefetchBlockEnv forwarderDb.headOrZero) forwarderDb.view asked a →
              forwarderCall.Names asked a)
          ∧ ∀ hash, hash = 0 ∨ hash = KECCAK256_EMPTY → .codeByHash hash ∈ asked →
              forwarderDb.getCode hash = none) := by
  intro evm e asked
  have hok : (prefetch evm forwarderDb ethereumMainnet forwarderCall).isOk = true := by
    decide +kernel
  cases hp : prefetch evm forwarderDb ethereumMainnet forwarderCall with
  | error err => simp [hp, Except.isOk, Except.toBool] at hok
  | ok resp => exact ⟨resp, rfl, prefetch_sufficient_iff (small_loadRules _) hp⟩

end EvmState
