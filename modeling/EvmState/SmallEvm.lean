import EvmState.Api.Prefetch
import EvmState.CacheDb

/-!
# A small EVM

What is proved for every `Evm` is tried on `Evm.small`: it validates the caller, runs the
bytecode of the target or of a creation, and files what a creation deploys. Of the opcodes
it has the pushes, `NUMBER`, `MSTORE`, `CALL` without value, `RETURN` and `STOP`; code with
any other fails. Nothing is paid, and a frame ends after `frameSteps` opcodes.

Contracts within these bounds do here what they do on revm.
-/

namespace EvmState

open Std

namespace Opcode

def STOP : BitVec 8 := 0x00
def NUMBER : BitVec 8 := 0x43
def MSTORE : BitVec 8 := 0x52
def PUSH1 : BitVec 8 := 0x60
def PUSH32 : BitVec 8 := 0x7F
def RETURN : BitVec 8 := 0xF3

end Opcode

namespace SmallEvm

/-! ## Frames -/

/-- Bytes from an offset on; behind the end there are zeros. -/
def slice (bs : Bytes) (offset size : Nat) : Bytes :=
  (bs.drop offset ++ List.replicate size 0).take size

/-- Bytes with others put over them. -/
def overwrite (bs : Bytes) (offset : Nat) (new : Bytes) : Bytes :=
  slice bs 0 offset ++ new ++ bs.drop (offset + new.length)

structure Frame where
  target : Address
  code : Bytes
  pc : Nat
  stack : List U256
  memory : Bytes

/-- How a frame ends. -/
inductive Halted where
  | returned (output : Bytes)
  | failed

namespace Frame

def start (target : Address) (code : Bytes) : Frame := ⟨target, code, 0, [], []⟩

/-- Behind its end code stops. -/
def opcode (f : Frame) : BitVec 8 := ((f.code[f.pc]?).getD 0).toBitVec

/-- What an inspector is shown. -/
def interp (f : Frame) : Interp := ⟨f.opcode, f.target, f.stack⟩

/-- The frame behind an opcode of this size, with this stack. -/
def step (f : Frame) (size : Nat) (stack : List U256) : Frame :=
  { f with pc := f.pc + size, stack := stack }

/-- What comes next: the rest of the frame, perhaps behind a call, or its end. -/
inductive Next where
  | go (f : Frame)
  | call (callee : Address) (retOffset retSize : Nat) (f : Frame)
  | halt (h : Halted)

def next (block : BlockEnv) (f : Frame) : Next :=
  if f.opcode = Opcode.STOP then .halt (.returned [])
  else if Opcode.PUSH1 ≤ f.opcode ∧ f.opcode ≤ Opcode.PUSH32 then
    let size := f.opcode.toNat - 0x5F
    .go (f.step (1 + size) (ofBe 256 (slice f.code (f.pc + 1) size) :: f.stack))
  else if f.opcode = Opcode.NUMBER then .go (f.step 1 (block.number.setWidth 256 :: f.stack))
  else if f.opcode = Opcode.MSTORE then
    match f.stack with
    | offset :: v :: rest =>
        .go { f.step 1 rest with memory := overwrite f.memory offset.toNat (beOf 32 v) }
    | _ => .halt .failed
  else if f.opcode = Opcode.RETURN then
    match f.stack with
    | offset :: size :: _ => .halt (.returned (slice f.memory offset.toNat size.toNat))
    | _ => .halt .failed
  else if f.opcode = Opcode.CALL then
    match f.stack with
    | _ :: callee :: value :: _ :: _ :: retOffset :: retSize :: rest =>
        if value = 0 then
          .call (addressFromWord callee) retOffset.toNat retSize.toNat (f.step 1 rest)
        else .halt .failed
    | _ => .halt .failed
  else .halt .failed

/-- Behind a call: whether it returned, and what, as much as there is room for. -/
def resume (f : Frame) (retOffset retSize : Nat) : Halted → Frame
  | .returned output =>
      { f with
        stack := 1 :: f.stack
        memory := overwrite f.memory retOffset (output.take retSize) }
  | .failed => { f with stack := 0 :: f.stack }

end Frame

/-! ## Executions -/

/-- An account and its code, which is looked up unless its hash says that it is empty. -/
def lookup (a : Address) : Dialogue Query Query.Answer (Option AccountInfo × Bytes) :=
  .ask (.basic a) fun (o : Option AccountInfo) =>
    match o with
    | none => .done (none, [])
    | some info =>
        if info.codeHash = KECCAK256_EMPTY then .done (some info, [])
        else .ask (.codeByHash info.codeHash) fun code => .done (some info, code)

/-- Go on behind an opcode, with a way to run frames. -/
def Frame.Next.run (run : Frame → Dialogue Query Query.Answer Halted) :
    Frame.Next → Dialogue Query Query.Answer Halted
  | .go f => run f
  | .halt h => .done h
  | .call callee retOffset retSize f =>
      (lookup callee).bind fun found =>
        (run (.start callee found.2)).bind fun h => run (f.resume retOffset retSize h)

/-- Run a frame for so many opcodes, and the frames it calls likewise. -/
def runFrame (block : BlockEnv) : Nat → Frame → Dialogue Query Query.Answer Halted
  | 0, _ => .done .failed
  | steps + 1, f => .ask (.step f.interp) fun _ => (f.next block).run (runFrame block steps)

def frameSteps : Nat := 32

def Halted.result : Halted → ExecutionResult
  | .returned output => .success output 21000
  | .failed => .halt 21000

/-- What sending a transaction changes. -/
def sent (tx : TxEnv) (info : AccountInfo) : Changes := (countingResult tx info).state

/-- RLP of an address and a nonce. -/
def rlpSender (a : Address) (nonce : U64) : Bytes :=
  let digits := (beOf 8 nonce).dropWhile (· == 0)
  -- one byte below 0x80 stands for itself
  let item :=
    if nonce ≠ 0 ∧ nonce.toNat < 0x80 then digits
    else UInt8.ofNat (0x80 + digits.length) :: digits
  UInt8.ofNat (0xC0 + 21 + item.length) :: 0x94 :: (beOf 20 a ++ item)

/-- Where a creation goes. -/
def createAddress (keccak256 : Bytes → B256) (a : Address) (nonce : U64) : Address :=
  (keccak256 (rlpSender a nonce)).setWidth 160

/-- There is no account yet that a creation would collide with. -/
def free : Option AccountInfo → Bool
  | none => true
  | some info => info.nonce == 0 && (info.codeHash == 0 || info.codeHash == KECCAK256_EMPTY)

/-- The account of a creation that returned this code. -/
def deployedAccount (keccak256 : Bytes → B256) (code : Bytes) : Account where
  info := ⟨1, 0, keccak256 code⟩
  code := some code
  storage := ∅
  touched := true
  selfdestructed := false
  created := true

/-- What a creation leaves: where its code returned, an account with what it returned. -/
def deployed (keccak256 : Bytes → B256) (new : Address) (changes : Changes) : Halted → Changes
  | .returned code => changes.insert new (deployedAccount keccak256 code)
  | .failed => changes

/-- A transaction that passed validation. -/
def execute (keccak256 : Bytes → B256) (block : BlockEnv) (tx : TxEnv) (info : AccountInfo) :
    Execution :=
  match tx.kind with
  | .call target =>
      (lookup target).bind fun found =>
        (runFrame block frameSteps (.start target found.2)).bind fun h =>
          .done (.ok ⟨h.result, sent tx info⟩)
  | .create =>
      let new := createAddress keccak256 tx.caller tx.nonce
      .ask (.basic new) fun o =>
        if free o = true ∧ new ≠ tx.caller then
          (runFrame block frameSteps (.start new tx.data)).bind fun h =>
            .done (.ok ⟨h.result, deployed keccak256 new (sent tx info) h⟩)
        else .done (.ok ⟨.halt 21000, sent tx info⟩)

/-- Validate the caller, then execute. -/
def replay (keccak256 : Bytes → B256) (_ : CfgEnv) (block : BlockEnv) (tx : TxEnv) : Execution :=
  (lookup tx.caller).bind fun caller =>
    let info := caller.1.getD .zero
    if ¬ (info.nonce = tx.nonce ∧ tx.nonce < tx.nonce + 1) then .done (.error (.transaction "nonce"))
    else if caller.2 ≠ [] then .done (.error (.transaction "caller has code"))
    else if tx.value ≠ 0 then .done (.error (.custom "value"))
    else execute keccak256 block tx info

end SmallEvm

/-- revm with these executions; of system calls it has none that does anything. -/
def Evm.small (keccak256 : Bytes → B256) : Evm :=
  .ofCacheDb keccak256 (SmallEvm.replay keccak256) (fun _ _ _ => .done (.ok ⟨.success [] 0, ∅⟩))

/-! ## Contracts to run on it -/

/-- `PUSH1 1 PUSH1 0 MSTORE PUSH1 32 PUSH1 0 RETURN`. -/
def oneCode : Bytes := [0x60, 0x01, 0x60, 0x00, 0x52, 0x60, 0x20, 0x60, 0x00, 0xF3]

/-- `NUMBER PUSH1 0 MSTORE PUSH1 32 PUSH1 0 RETURN`. -/
def numberCode : Bytes := [0x43, 0x60, 0x00, 0x52, 0x60, 0x20, 0x60, 0x00, 0xF3]

/-- Call `0x..0D` without arguments and return what it returned, as one word. -/
def forwardCode : Bytes :=
  [0x60, 0x20, 0x60, 0x00, 0x60, 0x00, 0x60, 0x00, 0x60, 0x00, 0x60, 0x0D, 0x60, 0xFF, 0xF1,
    0x60, 0x20, 0x60, 0x00, 0xF3]

/-- Put `oneCode` into memory and return it: what deploys it. -/
def oneInitCode : Bytes :=
  [0x69, 0x60, 0x01, 0x60, 0x00, 0x52, 0x60, 0x20, 0x60, 0x00, 0xF3, 0x60, 0x00, 0x52,
    0x60, 0x0A, 0x60, 0x16, 0xF3]

/--
keccak256 of empty code, of these, and of what the first creation of `0x..0A` hashes; all else
has the hash of `abc`.
-/
def smallKeccak256 (input : Bytes) : B256 :=
  if input = [] then KECCAK256_EMPTY
  else if input = oneCode then 0xc1d5b4ce3e2a6227293fccce2904121c8647bbe16c1216340b851bf12d12560e
  else if input = numberCode then 0x99ffc66255169307643ea33a4748f6537a4f7fb4b486784e17ed581511bfe9a9
  else if input = forwardCode then 0x7ffd93b3382e0a5709f9577ed94dd2d61d496c36ce37ba54d6ba05e2c1b79e1f
  else if input = SmallEvm.rlpSender 0xA 0 then
    0x3d090c08c3cdd2bd86609a51f6a171f57acac30c292e223ea8adbb28abd3e14d
  else 0x4e03657aea45a94fc7d47ba826c8d667c0d1e6e33a64a036ec44f58fa12d6c45

end EvmState
