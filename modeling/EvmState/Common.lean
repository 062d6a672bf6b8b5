import EvmState.Primitives

/-!
# Account records and table keys

The 72-byte account record and the keys of the `accounts` and `storage` tables.
Both codecs are concatenations of fixed-width big-endian fields, so decoding is
taking the fields apart again.
-/

namespace EvmState

/-- EVM account information stored in the state database. -/
structure AccountInfo where
  nonce : U64
  balance : U256
  codeHash : B256
deriving DecidableEq, Repr

/-- `AccountDecodeError::InvalidLength`. -/
structure AccountDecodeError where
  expected : Nat
  got : Nat
deriving DecidableEq, Repr

namespace AccountInfo

/-- `ENCODED_SIZE`. -/
def encodedSize : Nat := 8 + 32 + 32

/-- A fresh account: zero nonce, zero balance, no code hash. -/
def zero : AccountInfo := ⟨0, 0, 0⟩

/-- `[nonce:8][balance:32][code_hash:32]`. -/
def toBytes (i : AccountInfo) : Bytes := beOf 8 i.nonce ++ (beOf 32 i.balance ++ beOf 32 i.codeHash)

def fromBytes (bs : Bytes) : Except AccountDecodeError AccountInfo :=
  if bs.length = encodedSize then
    .ok { nonce := ofBe 64 (bs.take 8)
          balance := ofBe 256 ((bs.drop 8).take 32)
          codeHash := ofBe 256 ((bs.drop 8).drop 32) }
  else .error { expected := encodedSize, got := bs.length }

@[simp] theorem length_toBytes (i : AccountInfo) : i.toBytes.length = encodedSize := by
  simp [toBytes, encodedSize]

/-- Decoding a record gives the account it was written from. -/
@[simp] theorem fromBytes_toBytes (i : AccountInfo) : fromBytes i.toBytes = .ok i := by
  rw [fromBytes, if_pos (length_toBytes i), toBytes, List.take_left' (length_beOf 8 _),
    List.drop_left' (length_beOf 8 _), List.take_left' (length_beOf 32 _),
    List.drop_left' (length_beOf 32 _), ofBe_beOf (by omega), ofBe_beOf (by omega),
    ofBe_beOf (by omega)]

/-- Every 72-byte string is the record of the account it decodes to. -/
theorem toBytes_of_fromBytes {bs : Bytes} {i : AccountInfo} (h : fromBytes bs = .ok i) :
    i.toBytes = bs := by
  unfold fromBytes at h
  split at h
  · rename_i hlen
    rw [encodedSize] at hlen
    have e1 : beOf 8 (ofBe 64 (bs.take 8)) = bs.take 8 :=
      beOf_ofBe (by omega) (by simp; omega)
    have e2 : beOf 32 (ofBe 256 ((bs.drop 8).take 32)) = (bs.drop 8).take 32 :=
      beOf_ofBe (by omega) (by simp; omega)
    have e3 : beOf 32 (ofBe 256 ((bs.drop 8).drop 32)) = (bs.drop 8).drop 32 :=
      beOf_ofBe (by omega) (by simp; omega)
    injection h with h
    rw [← h, toBytes, e1, e2, e3, List.take_append_drop, List.take_append_drop]
  · cases h

theorem toBytes_inj {i j : AccountInfo} (h : i.toBytes = j.toBytes) : i = j := by
  have := congrArg fromBytes h
  simpa using this

end AccountInfo

/-! ## Keys -/

/-- `AccountKey::to_bytes`. -/
def accountKey (a : Address) : Bytes := beOf 20 a

/-- `StorageKey::to_bytes`: the address, then the slot. -/
def storageKey (a : Address) (s : B256) : Bytes := beOf 20 a ++ beOf 32 s

/-- Database key for the `storage` table. -/
structure StorageKey where
  address : Address
  slot : B256
deriving DecidableEq, Repr

/-- `KeyDecodeError::InvalidLength`. -/
structure KeyDecodeError where
  keyType : String
  expected : Nat
  got : Nat
deriving DecidableEq, Repr

namespace StorageKey

/-- `SIZE`. -/
def size : Nat := 20 + 32

def toBytes (k : StorageKey) : Bytes := storageKey k.address k.slot

def fromBytes (bs : Bytes) : Except KeyDecodeError StorageKey :=
  if bs.length = size then .ok { address := ofBe 160 (bs.take 20), slot := ofBe 256 (bs.drop 20) }
  else .error { keyType := "StorageKey", expected := size, got := bs.length }

@[simp] theorem length_toBytes (k : StorageKey) : k.toBytes.length = size := by
  simp [toBytes, storageKey, size]

/-- Reading a key gives the address and the slot it was written from. -/
@[simp] theorem fromBytes_toBytes (k : StorageKey) : fromBytes k.toBytes = .ok k := by
  rw [fromBytes, if_pos (length_toBytes k), toBytes, storageKey, List.take_left' (length_beOf 20 _),
    List.drop_left' (length_beOf 20 _), ofBe_beOf (by omega), ofBe_beOf (by omega)]

/-- Every 52-byte string is the key it reads as. -/
theorem toBytes_of_fromBytes {bs : Bytes} {k : StorageKey} (h : fromBytes bs = .ok k) :
    k.toBytes = bs := by
  unfold fromBytes at h
  split at h
  · rename_i hlen
    rw [size] at hlen
    injection h with h
    rw [← h, toBytes, storageKey, beOf_ofBe (by omega) (by simp; omega),
      beOf_ofBe (by omega) (by simp; omega), List.take_append_drop]
  · cases h

end StorageKey

theorem accountKey_inj {a b : Address} (h : accountKey a = accountKey b) : a = b :=
  beOf_inj (by omega) h

theorem storageKey_inj {a b : Address} {s t : B256} (h : storageKey a s = storageKey b t) :
    a = b ∧ s = t := by
  obtain ⟨h1, h2⟩ := List.append_inj h (by simp)
  exact ⟨beOf_inj (by omega) h1, beOf_inj (by omega) h2⟩

end EvmState
