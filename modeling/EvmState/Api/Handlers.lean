import EvmState.Api.Wire

/-!
# The read endpoints

`GET /v1/account/{addr}`, `GET /v1/storage/{addr}/{slot}` and `GET /v1/code/{addr}`,
as functions of the database and the path: a body, or the error that becomes the
HTTP status.
-/

namespace EvmState

/-! ## Errors -/

/-- What an internal error was caused by. -/
inductive InternalCause where
  | db (e : DbError)
  | evm (e : EvmError)
deriving DecidableEq, Repr

/-- `AppError`. -/
inductive AppError where
  | badRequest (message : String)
  | notFound
  | internal (cause : InternalCause)
deriving DecidableEq, Repr

/-- The HTTP status of an error. -/
def AppError.status : AppError → Nat
  | .badRequest _ => 400
  | .notFound => 404
  | .internal _ => 500

namespace Api

/-- `parse_address`. -/
def parseAddress (s : String) : Except AppError Address :=
  match Address.parse s with
  | some a => .ok a
  | none => .error (.badRequest s!"invalid address: {s}")

/-- `parse_b256` of the server. -/
def parseB256 (s : String) : Except AppError B256 :=
  match B256.parse s with
  | some h => .ok h
  | none => .error (.badRequest s!"invalid B256: {s}")

@[simp] theorem parseAddress_toHex (a : Address) : parseAddress a.toHex = .ok a := by
  rw [parseAddress, Address.parse_toHex]

@[simp] theorem parseB256_toHex (s : B256) : parseB256 (B256.toHex s) = .ok s := by
  rw [parseB256, B256.parse_toHex]

/-! ## Handlers -/

/-- `?.ok_or(AppError::NotFound)?` of a lookup. -/
def found {α : Type} : Except DbError (Option α) → Except AppError α
  | .ok (some v) => .ok v
  | .ok none => .error .notFound
  | .error e => .error (.internal (.db e))

/-- `get_account`. -/
def getAccount (db : StateDb) (addr : String) : Except AppError AccountResponse :=
  match parseAddress addr with
  | .error e => .error e
  | .ok address => (found (db.getAccount address)).map .ofInfo

/-- `get_storage`. -/
def getStorage (db : StateDb) (addr slot : String) : Except AppError StorageResponse :=
  match parseAddress addr with
  | .error e => .error e
  | .ok address =>
      match parseB256 slot with
      | .error e => .error e
      | .ok slot => (found (db.getStorage address slot)).map fun value => ⟨value.toHex⟩

/-- `get_code`. -/
def getCode (db : StateDb) (addr : String) : Except AppError CodeResponse :=
  match parseAddress addr with
  | .error e => .error e
  | .ok address =>
      match found (db.getAccount address) with
      | .error e => .error e
      | .ok info => (found (.ok (db.getCode info.codeHash))).map fun code => ⟨bytesToHex code⟩

end Api

end EvmState
