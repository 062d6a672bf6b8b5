import EvmState.Lib.Lists
import EvmState.Lib.Maps
import EvmState.Revm

/-!
# What server and clients say to each other

The bodies of the HTTP interface, as the structures that are written to JSON and
read from it; the JSON text itself is left to its library. Numbers of more than 64
bits, hashes, addresses and bytes are strings in them, printed by the server and
parsed by the clients.

A client that reads a state slice parses it entry by entry and files each entry as
it goes, up to the first one it cannot read (`StateSlice.puts`).
-/

namespace EvmState

open Std

/-! ## Bodies -/

/-- An account, `AccountResponse`, `PrefetchAccountInfo` and `SliceAccount` alike. -/
structure AccountResponse where
  nonce : U64
  balance : String
  codeHash : String
deriving DecidableEq, Repr

structure StorageResponse where
  value : String
deriving DecidableEq, Repr

structure CodeResponse where
  code : String
deriving DecidableEq, Repr

/-- How the server prints an account. -/
def AccountResponse.ofInfo (info : AccountInfo) : AccountResponse :=
  ⟨info.nonce, info.balance.toHex, B256.toHex info.codeHash⟩

/-- The state a prefetch returns. -/
structure StateSlice where
  accounts : HashMap String AccountResponse
  storage : HashMap String (HashMap String String)
  code : HashMap String String

structure PrefetchRequest where
  toAddr : String
  data : Option String := none
  fromAddr : Option String := none
  value : Option String := none
deriving DecidableEq, Repr

structure AccessListEntry where
  address : String
  slots : List String
deriving DecidableEq, Repr

structure PrefetchResponse where
  result : String
  success : Bool
  accessList : List AccessListEntry
  stateSlice : StateSlice

/-! ## Parsing on the client -/

/-- The clients' errors. -/
inductive ClientError where
  | server (status : Nat)
  | invalidResponse (message : String)
  | evm (message : String)
deriving DecidableEq, Repr

/-- `parse_u256_hex`. -/
def parseU256 (s : String) : Except ClientError U256 :=
  match parseU256Hex s with
  | some v => .ok v
  | none => .error (.invalidResponse "invalid U256")

/-- `parse_b256_hex`. -/
def parseB256 (s : String) : Except ClientError B256 :=
  match B256.parse s with
  | some h => .ok h
  | none => .error (.invalidResponse "invalid B256")

/-- `decode_hex_bytes`. -/
def decodeBytes (s : String) : Except ClientError Bytes :=
  match decodeHexBytes s with
  | some b => .ok b
  | none => .error (.invalidResponse "invalid hex")

/-- An account as the clients cache it: the same three fields as a record. -/
def AccountResponse.decode (r : AccountResponse) : Except ClientError AccountInfo :=
  match parseU256 r.balance with
  | .error e => .error e
  | .ok balance =>
      match parseB256 r.codeHash with
      | .error e => .error e
      | .ok codeHash => .ok ⟨r.nonce, balance, codeHash⟩

/-- Something filed in a client's cache. -/
inductive CachePut where
  | account (a : Address) (info : AccountInfo)
  | storage (a : Address) (index : U256) (value : U256)
  | code (h : B256) (bytecode : Bytes)
deriving DecidableEq, Repr

namespace CachePut

/-- The parts of a put, one for each map of a cache. -/
def accountPart : CachePut → Option (Address × Option AccountInfo)
  | .account a info => some (a, some info)
  | _ => none

def storagePart : CachePut → Option ((Address × U256) × U256)
  | .storage a i v => some ((a, i), v)
  | _ => none

def codePart : CachePut → Option (B256 × Bytes)
  | .code h b => some (h, b)
  | _ => none

theorem mem_accountPart {ps : List CachePut} {a : Address} {e : Option AccountInfo} :
    (a, e) ∈ ps.filterMap accountPart ↔ ∃ info, e = some info ∧ .account a info ∈ ps := by
  rw [List.mem_filterMap]
  constructor
  · intro hx
    obtain ⟨p, hp, h⟩ := hx
    cases p <;> simp only [accountPart, reduceCtorEq, Option.some.injEq, Prod.mk.injEq] at h
    obtain ⟨rfl, rfl⟩ := h
    exact ⟨_, rfl, hp⟩
  · intro hx
    obtain ⟨info, rfl, h⟩ := hx
    exact ⟨.account a info, h, rfl⟩

theorem mem_storagePart {ps : List CachePut} {a : Address} {i v : U256} :
    ((a, i), v) ∈ ps.filterMap storagePart ↔ .storage a i v ∈ ps := by
  rw [List.mem_filterMap]
  constructor
  · intro hx
    obtain ⟨p, hp, h⟩ := hx
    cases p <;> simp only [storagePart, reduceCtorEq, Option.some.injEq, Prod.mk.injEq] at h
    obtain ⟨⟨rfl, rfl⟩, rfl⟩ := h
    exact hp
  · exact fun h => ⟨.storage a i v, h, rfl⟩

theorem mem_codePart {ps : List CachePut} {h : B256} {raw : Bytes} :
    (h, raw) ∈ ps.filterMap codePart ↔ .code h raw ∈ ps := by
  rw [List.mem_filterMap]
  constructor
  · intro hx
    obtain ⟨p, hp, heq⟩ := hx
    cases p <;> simp only [codePart, reduceCtorEq, Option.some.injEq, Prod.mk.injEq] at heq
    obtain ⟨rfl, rfl⟩ := heq
    exact hp
  · exact fun hp => ⟨.code h raw, hp, rfl⟩

end CachePut

/--
What filing a slice does, in order. Entries whose key is no address, slot or hash
are passed over; the first value that cannot be read is an error.
-/
def StateSlice.puts (slice : StateSlice) : List (Except ClientError CachePut) :=
  slice.accounts.toList.filterMap (fun e =>
      (Address.parse e.1).map fun a => e.2.decode.map (CachePut.account a))
    ++ slice.storage.toList.flatMap (fun e =>
      match Address.parse e.1 with
      | some a =>
          e.2.toList.filterMap fun f =>
            (B256.parse f.1).map fun slot => (parseU256 f.2).map (CachePut.storage a slot)
      -- its slots are passed over with it
      | none => [])
    ++ slice.code.toList.filterMap (fun e =>
      (B256.parse e.1).map fun h => (decodeBytes e.2).map (CachePut.code h))

/-- The result of a prefetch or of a local execution. -/
structure PrefetchResult where
  result : Bytes
  success : Bool
deriving DecidableEq, Repr

/-- File a response with `put`, then read its result. -/
def PrefetchResponse.receive {γ : Type} (put : γ → CachePut → γ) (resp : PrefetchResponse)
    (cache : γ) : γ × Except ClientError PrefetchResult :=
  match Lists.runUntil put resp.stateSlice.puts cache with
  | (cache', .error e) => (cache', .error e)
  | (cache', .ok ()) =>
      match decodeBytes resp.result with
      | .ok bytes => (cache', .ok ⟨bytes, resp.success⟩)
      | .error e => (cache', .error e)

/-- What is filed is what comes before the first error, whatever the result is. -/
theorem PrefetchResponse.receive_fst {γ : Type} (put : γ → CachePut → γ) (resp : PrefetchResponse)
    (cache : γ) : (resp.receive put cache).1 = (Lists.runUntil put resp.stateSlice.puts cache).1 := by
  unfold receive
  split
  · rename_i heq
    rw [heq]
  · rename_i heq
    rw [heq]
    split <;> rfl

/-! ## What is printed reads back -/

@[simp] theorem parseU256_toHex (v : U256) : parseU256 v.toHex = .ok v := by
  rw [parseU256, parseU256Hex_toHex]

@[simp] theorem parseB256_toHex (h : B256) : parseB256 (B256.toHex h) = .ok h := by
  rw [parseB256, B256.parse_toHex]

@[simp] theorem decodeBytes_bytesToHex (b : Bytes) : decodeBytes (bytesToHex b) = .ok b := by
  rw [decodeBytes, decodeHexBytes_bytesToHex]

@[simp] theorem AccountResponse.decode_ofInfo (info : AccountInfo) :
    (AccountResponse.ofInfo info).decode = .ok info := by
  simp [AccountResponse.decode, AccountResponse.ofInfo]

theorem Address.toHex_inj {a b : Address} (h : a.toHex = b.toHex) : a = b := by
  have := congrArg Address.parse h
  simpa using this

theorem B256.toHex_inj {h h' : B256} (heq : B256.toHex h = B256.toHex h') : h = h' := by
  have := congrArg B256.parse heq
  simpa using this

end EvmState
