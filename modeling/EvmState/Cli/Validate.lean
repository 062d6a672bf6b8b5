import EvmState.Validation.Validate

/-!
# The validate command

`run_validate` checks the database against an archive node at the head of the database,
and fails if anything differs.
-/

namespace EvmState

/-- The ways it fails; opening the database is left out. -/
inductive ValidateFailure where
  /-- `--rpc-url is required for validation` -/
  | rpcUrlRequired
  /-- `database has no head block; import or replay first` -/
  | noHead
  | db (e : DbError)
  | validation (e : ValidationError)
  /-- `validation failed: {mismatches} mismatches out of {total} checks` -/
  | mismatches (mismatches total : Nat)
deriving DecidableEq, Repr

/-- `run_validate`; `connect` is the client for a url. -/
def runValidate (keccak256 : Bytes → B256) (connect : String → EthRpcClient) (sampler : Sampler)
    (cliUrl configUrl : Option String) (samples : Nat) (db : StateDb) :
    Except ValidateFailure Unit :=
  match cliUrl.or configUrl with
  | none => .error .rpcUrlRequired
  | some url =>
      match db.getHeadBlock with
      | .error e => .error (.db e)
      | .ok none => .error .noHead
      | .ok (some head) =>
          match validateRandom keccak256 (connect url).rpc sampler db samples head with
          | .error e => .error (.validation e)
          | .ok report =>
              if report.isValid then .ok ()
              else .error (.mismatches report.mismatches report.totalChecks)

end EvmState
