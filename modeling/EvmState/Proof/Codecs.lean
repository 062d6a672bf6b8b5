import EvmState.Proof.TypedMaps

/-!
# The codecs of keys and accounts

Both records are fixed-width big-endian fields behind one another, so every string of
the right length is the record of exactly one value, and storage keys are ordered as
their addresses and, within one address, as their slots (`toBytes_lt_iff`).

Scans are in byte order. What lies between two keys of one address therefore has that
address too (`addressRuns_of_ascending`): the slots of an address follow one another,
and no other address comes in between.
-/

namespace EvmState

open Radix

namespace StorageKey

/-- By address, then by slot. -/
def Precedes (j k : StorageKey) : Prop :=
  j.address.toNat < k.address.toNat
    ∨ (j.address = k.address ∧ j.slot.toNat < k.slot.toNat)

theorem toBytes_inj {j k : StorageKey} (h : j.toBytes = k.toBytes) : j = k := by
  obtain ⟨ha, hs⟩ := storageKey_inj h
  cases j
  cases k
  obtain rfl := ha
  obtain rfl := hs
  rfl

/-- Keys compare as the two numbers they are made of. -/
theorem compare_toBytes (j k : StorageKey) :
    compare j.toBytes k.toBytes
      = (compare j.address.toNat k.address.toNat).then (compare j.slot.toNat k.slot.toNat) := by
  rw [toBytes, toBytes, storageKey, storageKey, compare_append _ _ (by simp),
    compare_beOf (by omega), compare_beOf (by omega), compare_word, compare_word]

theorem toBytes_lt_iff (j k : StorageKey) :
    compare j.toBytes k.toBytes = .lt ↔ j.Precedes k := by
  rw [compare_toBytes, Ordering.then_eq_lt, Nat.compare_eq_lt, Nat.compare_eq_lt,
    Nat.compare_eq_eq, BitVec.toNat_inj, Precedes]

/-- A key is read from exactly the strings of its length. -/
theorem fromBytes_of_length {bs : Bytes} (h : bs.length = size) :
    ∃ k, fromBytes bs = .ok k ∧ k.toBytes = bs := by
  have hok : fromBytes bs = .ok ⟨ofBe 160 (bs.take 20), ofBe 256 (bs.drop 20)⟩ := by
    rw [fromBytes, if_pos h]
  exact ⟨_, hok, toBytes_of_fromBytes hok⟩

end StorageKey

/-- An account is read from exactly the strings of its length. -/
theorem AccountInfo.fromBytes_ok_iff (bs : Bytes) :
    (∃ i, AccountInfo.fromBytes bs = .ok i) ↔ bs.length = AccountInfo.encodedSize := by
  constructor
  · intro h
    obtain ⟨i, hi⟩ := h
    rw [← AccountInfo.toBytes_of_fromBytes hi, AccountInfo.length_toBytes]
  · intro h
    exact ⟨_, if_pos h⟩

/-! ## Scans -/

/-- Between two keys of one address there are only keys of that address, in order. -/
def AddressRuns (keys : List StorageKey) : Prop :=
  ∀ pre x mid y post, keys = pre ++ x :: (mid ++ y :: post) → x.address = y.address →
    x.slot.toNat < y.slot.toNat
      ∧ ∀ z ∈ mid, z.address = x.address ∧ x.slot.toNat < z.slot.toNat
          ∧ z.slot.toNat < y.slot.toNat

/-- What precedes a key and follows another of its address has that address. -/
theorem StorageKey.Precedes.between {x y z : StorageKey} (hxz : x.Precedes z) (hzy : z.Precedes y)
    (hxy : x.address = y.address) :
    z.address = x.address ∧ x.slot.toNat < z.slot.toNat ∧ z.slot.toNat < y.slot.toNat := by
  have haddr : x.address.toNat = y.address.toNat := congrArg BitVec.toNat hxy
  -- a step up in the address cannot be undone before `y`, so all three addresses are one
  rcases hxz with h | ⟨ha, hs⟩
  · rcases hzy with h' | ⟨ha', _⟩
    · omega
    · rw [ha'] at h
      omega
  · rcases hzy with h' | ⟨_, hs'⟩
    · rw [← ha] at h'
      omega
    · exact ⟨ha.symm, hs, hs'⟩

theorem addressRuns_of_ascending {keys : List StorageKey}
    (h : (keys.map StorageKey.toBytes).Pairwise (fun x y => compare x y = .lt)) :
    AddressRuns keys := by
  intro pre x mid y post hkeys hxy
  have hord : keys.Pairwise StorageKey.Precedes :=
    (List.pairwise_map.mp h).imp fun hlt => (StorageKey.toBytes_lt_iff _ _).mp hlt
  rw [hkeys] at hord
  -- ascending keys are pairwise in order, those between the two included
  obtain ⟨hx, hrest⟩ := List.pairwise_cons.mp (List.pairwise_append.mp hord).2.1
  obtain ⟨_, _, hmid⟩ := List.pairwise_append.mp hrest
  constructor
  · rcases hx y (List.mem_append_right mid List.mem_cons_self) with hlt | ⟨_, hs⟩
    · rw [hxy] at hlt
      omega
    · exact hs
  · intro z hz
    have hxz : x.Precedes z := hx z (List.mem_append_left _ hz)
    have hzy : z.Precedes y := hmid z hz y List.mem_cons_self
    exact hxz.between hzy hxy

/-- The keys `iter_storage` lists. -/
def StateDb.storageKeys (db : StateDb) : List StorageKey :=
  db.iterStorage.map fun e => ⟨e.1, e.2.1⟩

/-- They are the keys of the table that have the right length, in byte order. -/
theorem StateDb.map_storageKeys (db : StateDb) :
    db.storageKeys.map StorageKey.toBytes
      = ((db.cf .storage).toList.filter (fun e => e.1.length = 52 ∧ e.2.length = 32)).map
          Prod.fst := by
  rw [storageKeys, iterStorage, List.map_map, List.map_map]
  refine List.map_congr_left fun e he => ?_
  have hlen : e.1.length = 52 := (of_decide_eq_true (List.mem_filter.mp he).2).1
  exact StorageKey.toBytes_of_fromBytes (if_pos hlen)

theorem StateDb.ascending_storageKeys (db : StateDb) :
    (db.storageKeys.map StorageKey.toBytes).Pairwise (fun x y => compare x y = .lt) := by
  rw [map_storageKeys, List.pairwise_map]
  exact Std.ExtTreeMap.ordered_keys_toList.filter _

/--
**The codecs are bijections, and the one of storage keys keeps the order.** A scan of
the storage table, of whatever database, therefore lists the slots of an address one
after another and in order.
-/
theorem codecs_exact :
    (∀ j k : StorageKey, j.toBytes = k.toBytes → j = k)
      ∧ (∀ j k : StorageKey, compare j.toBytes k.toBytes
          = (compare j.address.toNat k.address.toNat).then (compare j.slot.toNat k.slot.toNat))
      ∧ (∀ k : StorageKey, StorageKey.fromBytes k.toBytes = .ok k)
      ∧ (∀ bs : Bytes, bs.length = 52 →
          ∃ k : StorageKey, StorageKey.fromBytes bs = .ok k ∧ k.toBytes = bs)
      ∧ (∀ keys : List StorageKey,
          (keys.map StorageKey.toBytes).Pairwise (fun x y => compare x y = .lt) →
            AddressRuns keys)
      ∧ (∀ db : StateDb, AddressRuns db.storageKeys)
      ∧ (∀ bs : Bytes, (∃ i, AccountInfo.fromBytes bs = .ok i) ↔ bs.length = 72)
      ∧ (∀ i : AccountInfo, AccountInfo.fromBytes i.toBytes = .ok i)
      ∧ (∀ (bs : Bytes) (i : AccountInfo), AccountInfo.fromBytes bs = .ok i → i.toBytes = bs) := by
  refine ⟨?_, ?_, ?_, ?_, ?_, ?_, ?_, ?_, ?_⟩
  · intro j k h
    exact StorageKey.toBytes_inj h
  · intro j k
    exact StorageKey.compare_toBytes j k
  · intro k
    exact StorageKey.fromBytes_toBytes k
  · intro bs h
    exact StorageKey.fromBytes_of_length h
  · intro keys h
    exact addressRuns_of_ascending h
  · intro db
    exact addressRuns_of_ascending db.ascending_storageKeys
  · intro bs
    exact AccountInfo.fromBytes_ok_iff bs
  · intro i
    exact AccountInfo.fromBytes_toBytes i
  · intro bs i h
    exact AccountInfo.toBytes_of_fromBytes h

end EvmState
