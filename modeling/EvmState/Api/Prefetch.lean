import EvmState.Api.Handlers

/-!
# The prefetch endpoint

`POST /v1/prefetch` runs a call on the server's state and returns, besides its
outcome, the state a client needs to run it again. What that is, is learned from an
inspector that watches opcodes: it records the address or the slot an opcode is
about to access, for the opcodes it knows.
-/

namespace EvmState

open Std

/-! ## Opcodes -/

namespace Opcode

def BALANCE : BitVec 8 := 0x31
def EXTCODESIZE : BitVec 8 := 0x3B
def EXTCODECOPY : BitVec 8 := 0x3C
def EXTCODEHASH : BitVec 8 := 0x3F
def SELFBALANCE : BitVec 8 := 0x47
def SLOAD : BitVec 8 := 0x54
def SSTORE : BitVec 8 := 0x55
def EOFCREATE : BitVec 8 := 0xEC
def CREATE : BitVec 8 := 0xF0
def CALL : BitVec 8 := 0xF1
def CALLCODE : BitVec 8 := 0xF2
def DELEGATECALL : BitVec 8 := 0xF4
def CREATE2 : BitVec 8 := 0xF5
def EXTCALL : BitVec 8 := 0xF8
def EXTDELEGATECALL : BitVec 8 := 0xF9
def STATICCALL : BitVec 8 := 0xFA
def EXTSTATICCALL : BitVec 8 := 0xFB
def SELFDESTRUCT : BitVec 8 := 0xFF

end Opcode

/-! ## The inspector -/

/-- Address to the storage slots accessed; no slots means account-level access only. -/
abbrev Accesses := HashMap Address (ExtTreeSet B256 compare)

/-- `accesses.entry(a).or_default()`. -/
def Accesses.touch (acc : Accesses) (a : Address) : Accesses :=
  acc.alter a (fun e => e.or (some ∅))

/-- `accesses.entry(a).or_default().insert(slot)`. -/
def Accesses.insertSlot (acc : Accesses) (a : Address) (slot : B256) : Accesses :=
  acc.alter a (fun e => some ((e.getD ∅).insert slot))

/-- `Address::from_word`: the low 20 bytes. -/
def addressFromWord (w : U256) : Address := w.setWidth 160

/-- `AccessListInspector::step`. -/
def inspectorStep (acc : Accesses) (i : Interp) : Accesses :=
  -- the slot is on top of the stack, the account is the one the frame runs for
  if i.opcode = Opcode.SLOAD ∨ i.opcode = Opcode.SSTORE then
    match i.stack.head? with
    | some slot => acc.insertSlot i.targetAddress slot
    | none => acc
  -- the address is on top of the stack
  else if i.opcode = Opcode.BALANCE ∨ i.opcode = Opcode.EXTCODEHASH
      ∨ i.opcode = Opcode.EXTCODESIZE ∨ i.opcode = Opcode.EXTCODECOPY then
    match i.stack.head? with
    | some word => acc.touch (addressFromWord word)
    | none => acc
  else if i.opcode = Opcode.SELFBALANCE then acc.touch i.targetAddress
  -- calls, creations and SELFDESTRUCT among the rest
  else acc

/-- The opcodes among the questions of an execution. -/
def stepsOf (asked : List Query) : List Interp :=
  asked.filterMap fun q =>
    match q with
    | .step i => some i
    | _ => none

/-- `into_accesses` after an execution that asked these questions. -/
def inspect (asked : List Query) : Accesses := (stepsOf asked).foldl inspectorStep ∅

/-! ## The call -/

/-- A call, parsed. -/
structure ViewCall where
  toAddr : Address
  fromAddr : Address
  calldata : Bytes
  value : U256
deriving DecidableEq, Repr

/-- The fields of a request, in the order they are parsed. -/
def PrefetchRequest.parse (req : PrefetchRequest) : Except AppError ViewCall :=
  match Api.parseAddress req.toAddr with
  | .error e => .error e
  | .ok toAddr =>
      match (req.fromAddr.map Api.parseAddress).getD (.ok 0) with
      | .error e => .error e
      | .ok fromAddr =>
          match (req.data.map decodeHexBytes).getD (some []) with
          | none => .error (.badRequest "invalid hex data")
          | some calldata =>
              match (req.value.map parseU256Hex).getD (some 0) with
              | none => .error (.badRequest "invalid value")
              | some value => .ok ⟨toAddr, fromAddr, calldata, value⟩

/-- revm's default configuration, for a fork. -/
def CfgEnv.default (spec : SpecId) : CfgEnv where
  spec := spec
  chainId := 1
  disableBalanceCheck := false

/-- revm's default block environment. -/
def BlockEnv.default : BlockEnv where
  number := 0
  beneficiary := 0
  timestamp := 1
  gasLimit := BitVec.allOnes 64
  basefee := 0
  difficulty := 0
  prevrandao := some 0
  blobExcessGasAndPrice := some ⟨0, 1⟩

/-- The block environment of a prefetch at a head. -/
def prefetchBlockEnv (headBlock : U64) : BlockEnv :=
  { BlockEnv.default with
    number := headBlock
    gasLimit := 30000000
    basefee := 0
    prevrandao := some 0 }

/-- The configuration of a prefetch at a head: the head has no timestamp. -/
def prefetchCfg (spec : ChainSpec) (headBlock : U64) : CfgEnv :=
  .default (spec.specAt headBlock 0)

/-- The transaction of a view call, on top of revm's defaults. -/
def ViewCall.txEnv (call : ViewCall) : TxEnv where
  txType := 0
  caller := call.fromAddr
  gasLimit := 30000000
  gasPrice := 0
  kind := .call call.toAddr
  value := call.value
  data := call.calldata
  nonce := 0
  chainId := some 1
  gasPriorityFee := none

/-- The execution a prefetch runs, at the head it found. -/
def prefetchExecution (evm : Evm) (spec : ChainSpec) (headBlock : U64) (call : ViewCall) :
    Execution :=
  evm.replay (prefetchCfg spec headBlock) (prefetchBlockEnv headBlock) call.txEnv

/-- The database as executions on the server see it. -/
def StateDb.view (db : StateDb) : (q : Query) → Except DbError q.Answer
  | .basic a => db.basicRef a
  | .storage a i => db.storageRef a i
  | .codeByHash h => .ok (db.codeByHashRef h)
  | .step _ => .ok ()

/-! ## The slice -/

/-- Caller and target are accessed at transaction level, not by an opcode. -/
def ViewCall.accesses (call : ViewCall) (asked : List Query) : Accesses :=
  ((inspect asked).touch call.fromAddr).touch call.toAddr

/-- The record of an account, if there is one that decodes. -/
def sliceAccount (db : StateDb) (a : Address) : Option (String × AccountResponse) :=
  match db.getAccount a with
  | .ok (some info) => some (a.toHex, .ofInfo info)
  | _ => none

/-- Its code; the two hashes of empty code are left out. -/
def sliceAccountCode (db : StateDb) (a : Address) : Option (String × String) :=
  match db.getAccount a with
  | .ok (some info) =>
      if info.codeHash ≠ 0 ∧ info.codeHash ≠ KECCAK256_EMPTY then
        (db.getCode info.codeHash).map fun code => (B256.toHex info.codeHash, bytesToHex code)
      else none
  | _ => none

def sliceAccounts (db : StateDb) (acc : Accesses) : HashMap String AccountResponse :=
  Maps.insertAll ∅ (acc.toList.filterMap fun e => sliceAccount db e.1)

def sliceCode (db : StateDb) (acc : Accesses) : HashMap String String :=
  Maps.insertAll ∅ (acc.toList.filterMap fun e => sliceAccountCode db e.1)

/-- The recorded slots of one account; a missing slot is sent as zero. -/
def sliceSlots (db : StateDb) (a : Address) (slots : List B256) :
    Except AppError (String × HashMap String String) :=
  match slots.mapM (fun slot =>
    (db.storageRef a slot).map fun val => (B256.toHex slot, U256.toHex val)) with
  | .ok values => .ok (a.toHex, Maps.insertAll ∅ values)
  | .error e => .error (.internal (.db e))

def sliceStorage (db : StateDb) (acc : Accesses) :
    Except AppError (HashMap String (HashMap String String)) :=
  ((acc.toList.filter (fun e => !e.2.isEmpty)).mapM
    (fun e => sliceSlots db e.1 e.2.toList)).map (Maps.insertAll ∅)

/-- The slice for the recorded accesses. -/
def stateSlice (db : StateDb) (acc : Accesses) : Except AppError StateSlice :=
  (sliceStorage db acc).map fun storage => ⟨sliceAccounts db acc, storage, sliceCode db acc⟩

/-- The output as it is sent. -/
def ExecutionResult.outputHex (r : ExecutionResult) : String :=
  (r.output.map bytesToHex).getD "0x"

/-- `post_prefetch`, on a parsed request. -/
def prefetch (evm : Evm) (db : StateDb) (spec : ChainSpec) (call : ViewCall) :
    Except AppError PrefetchResponse :=
  match db.getHeadBlock with
  | .error e => .error (.internal (.db e))
  | .ok head =>
      let execution := prefetchExecution evm spec (head.getD 0) call
      match execution.eval db.view with
      | .error e => .error (.internal (.evm (.database e)))
      | .ok (.error e) => .error (.internal (.evm e))
      | .ok (.ok r) =>
          -- the inspector has seen every opcode, those of reverted frames too
          let acc := call.accesses (execution.asked db.view)
          (stateSlice db acc).map fun slice =>
            { result := r.result.outputHex
              success := r.result.isSuccess
              accessList := acc.toList.map fun e => ⟨e.1.toHex, e.2.toList.map B256.toHex⟩
              stateSlice := slice }

/-- `post_prefetch`. -/
def postPrefetch (evm : Evm) (db : StateDb) (spec : ChainSpec) (req : PrefetchRequest) :
    Except AppError PrefetchResponse :=
  match req.parse with
  | .error e => .error e
  | .ok call => prefetch evm db spec call

end EvmState
