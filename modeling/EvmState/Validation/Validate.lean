import EvmState.Validation.Rpc

/-!
# Validating against an archive node

`validate_random` compares sampled entries of the database with what a node answers
for them at a block, field by field. `find_divergence_block` searches a range for the
block from which on the node's value of a slot differs.

Sampling picks evenly spaced entries with floating-point steps; which entries that
are is left to a `Sampler`.
-/

namespace EvmState

/-- Sampling: some of the entries, at most as many as asked for. -/
structure Sampler where
  sample : {α : Type} → List α → Nat → List α
  mem : ∀ {α : Type} (items : List α) (count : Nat), ∀ x ∈ sample items count, x ∈ items

/-! ## The report -/

/-- The fields of an account that are compared. -/
inductive AccountField where
  | nonce
  | balance
  | codeHash
deriving DecidableEq, Repr

/-- The names the report gives them. -/
def AccountField.name : AccountField → String
  | .nonce => "nonce"
  | .balance => "balance"
  | .codeHash => "codeHash"

/-- Result of comparing a single account field. -/
structure AccountCheck where
  address : Address
  field : AccountField
  localText : String
  remoteText : String
  isMatch : Bool
deriving DecidableEq, Repr

/-- Result of comparing a single storage slot. -/
structure StorageCheck where
  address : Address
  slot : B256
  localValue : U256
  remoteValue : U256
  isMatch : Bool
deriving DecidableEq, Repr

/-- Summary of a validation run. -/
structure ValidationReport where
  block : U64
  accountChecks : List AccountCheck
  storageChecks : List StorageCheck
deriving DecidableEq, Repr

namespace ValidationReport

def totalChecks (r : ValidationReport) : Nat := r.accountChecks.length + r.storageChecks.length

def mismatches (r : ValidationReport) : Nat :=
  r.accountChecks.countP (fun c => !c.isMatch) + r.storageChecks.countP (fun c => !c.isMatch)

def isValid (r : ValidationReport) : Bool := r.mismatches == 0

end ValidationReport

/-! ## Comparing -/

section Validate

variable (keccak256 : Bytes → B256) (rpc : EthRpc)

/-- The code hash of what a node answers for an account's code. -/
def remoteCodeHash (code : Bytes) : B256 := if code.isEmpty then 0 else keccak256 code

/-- `check_account`. -/
def checkAccount (block : U64) (address : Address) (info : AccountInfo) :
    Except ValidationError (List AccountCheck) :=
  match rpc.getNonce address block with
  | .error e => .error e
  | .ok nonce =>
      match rpc.getBalance address block with
      | .error e => .error e
      | .ok balance =>
          match rpc.getCode address block with
          | .error e => .error e
          | .ok code =>
              let codeHash := remoteCodeHash keccak256 code
              .ok
                [⟨address, .nonce, toString info.nonce.toNat, toString nonce.toNat,
                    info.nonce == nonce⟩,
                  ⟨address, .balance, U256.toHex info.balance, U256.toHex balance,
                    info.balance == balance⟩,
                  -- a hash brings its own marker, so the texts have two
                  ⟨address, .codeHash, "0x" ++ B256.toHex info.codeHash,
                    "0x" ++ B256.toHex codeHash, info.codeHash == codeHash⟩]

/-- The check of one slot. -/
def checkStorage (block : U64) (e : Address × B256 × U256) :
    Except ValidationError StorageCheck :=
  (rpc.getStorageAt e.1 e.2.1 block).map fun remote =>
    ⟨e.1, e.2.1, e.2.2, remote, e.2.2 == remote⟩

/-- `validate_random`, once the entries are sampled. -/
def validateEntries (accounts : List (Address × AccountInfo))
    (storage : List (Address × B256 × U256)) (block : U64) :
    Except ValidationError ValidationReport :=
  match accounts.mapM (fun e => checkAccount keccak256 rpc block e.1 e.2) with
  | .error e => .error e
  | .ok accountChecks =>
      match storage.mapM (checkStorage rpc block) with
      | .error e => .error e
      | .ok storageChecks => .ok ⟨block, accountChecks.flatten, storageChecks⟩

/-- `validate_random`. -/
def validateRandom (sampler : Sampler) (db : StateDb) (count : Nat) (block : U64) :
    Except ValidationError ValidationReport :=
  match db.iterAccounts with
  | .error e => .error (.db e)
  | .ok allAccounts =>
      validateEntries keccak256 rpc (sampler.sample allAccounts count)
        (sampler.sample db.iterStorage count) block

end Validate

/-! ## Searching for the divergence -/

/-- `a + b` on `u64`. -/
def checkedAdd (a b : U64) : Except ValidationError U64 :=
  if a.toNat + b.toNat < 2 ^ 64 then .ok (a + b) else .error .overflow

/-- `a - b` on `u64`. -/
def checkedSub (a b : U64) : Except ValidationError U64 :=
  if b ≤ a then .ok (a - b) else .error .overflow

theorem toNat_of_checkedAdd {a b c : U64} (h : checkedAdd a b = .ok c) :
    c.toNat = a.toNat + b.toNat := by
  unfold checkedAdd at h
  split at h
  · rw [← Except.ok.inj h]
    bv_omega
  · cases h

theorem toNat_of_checkedSub {a b c : U64} (h : checkedSub a b = .ok c) :
    b ≤ a ∧ c.toNat = a.toNat - b.toNat := by
  unfold checkedSub at h
  split at h
  · rename_i hle
    rw [← Except.ok.inj h]
    exact ⟨hle, BitVec.toNat_sub_of_le hle⟩
  · cases h

/-- `lo + (hi - lo) / 2`. -/
def midpoint (lo hi : U64) : Except ValidationError U64 :=
  (checkedSub hi lo).bind fun d => checkedAdd lo (d / 2)

theorem toNat_of_midpoint {lo hi mid : U64} (h : midpoint lo hi = .ok mid) :
    lo ≤ hi ∧ mid.toNat = lo.toNat + (hi.toNat - lo.toNat) / 2 := by
  obtain ⟨d, hd, hmid⟩ : ∃ d, checkedSub hi lo = .ok d ∧ checkedAdd lo (d / 2) = .ok mid := by
    unfold midpoint at h
    cases hd : checkedSub hi lo with
    | error e =>
        rw [hd] at h
        cases h
    | ok d =>
        rw [hd] at h
        exact ⟨d, rfl, h⟩
  obtain ⟨hle, hsub⟩ := toNat_of_checkedSub hd
  refine ⟨hle, ?_⟩
  rw [toNat_of_checkedAdd hmid, ← hsub]
  rfl

section Search

variable (remote : U64 → Except ValidationError U256) (localValue : U256)

/-- The loop of `find_divergence_block`. -/
def searchLoop (lo hi : U64) : Except ValidationError U64 :=
  if lo < hi then
    match _hmid : midpoint lo hi with
    | .error e => .error e
    | .ok mid =>
        match remote mid with
        | .error e => .error e
        | .ok value =>
            if value = localValue then
              match _hnext : checkedAdd mid 1 with
              | .error e => .error e
              | .ok lo' => searchLoop lo' hi
            else searchLoop lo mid
  else .ok lo
termination_by hi.toNat - lo.toNat
decreasing_by
  · have hm := toNat_of_midpoint _hmid
    have hn := toNat_of_checkedAdd _hnext
    bv_omega
  · have hm := toNat_of_midpoint _hmid
    bv_omega

end Search

/-- `find_divergence_block`. -/
def findDivergenceBlock (rpc : EthRpc) (address : Address) (slot : B256) (localValue : U256)
    (lowBlock highBlock : U64) : Except ValidationError (Option U64) :=
  -- no divergence: the remote matches at the high block
  match rpc.getStorageAt address slot highBlock with
  | .error e => .error e
  | .ok remoteHigh =>
      if remoteHigh = localValue then .ok none
      else
        -- it may be there already at the low block
        match rpc.getStorageAt address slot lowBlock with
        | .error e => .error e
        | .ok remoteLow =>
            if remoteLow ≠ localValue then .ok (some lowBlock)
            else
              (searchLoop (rpc.getStorageAt address slot) localValue lowBlock highBlock).map some

end EvmState
