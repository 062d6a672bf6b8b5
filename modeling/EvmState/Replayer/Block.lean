import EvmState.Revm

/-!
# Replaying one block

A block is executed transaction by transaction over one overlay, and the overlay
is then written back. What becomes durable is a list of commits: `Replay.commits`
holds the database after each of them, so that stopping between two commits is
stopping inside that list.

* A block without state diffs makes one commit, which also moves the head.
* A block with state diffs makes two. The first holds the effects of the regular
  transactions and leaves the head alone; the second applies the diffs, which
  stand for the system transactions that were skipped, and moves the head.
-/

namespace EvmState

open Std

/-- `evm_state_replayer::Error`; the EVM message keeps its parts. -/
inductive ReplayError where
  | db (e : DbError)
  | evm (blockNumber : U64) (txIndex : Nat) (isSystem : Bool) (reason : EvmError)
      (fromAddr toAddr : Option Address) (hash : Option B256)
  | source (message : String)
deriving DecidableEq, Repr

structure TxResult where
  gasUsed : U64
  success : Bool
deriving DecidableEq, Repr

structure BlockResult where
  blockNumber : U64
  txResults : List TxResult
deriving DecidableEq, Repr

/-- Detect system transactions injected by the consensus layer. -/
def isSystemTx (tx : Transaction) : Bool :=
  tx.fromAddr.any (· == 0) && tx.gas.all (· == 0)

/-! ## Writing the overlay back -/

/-- The writes for one cached account. -/
def flushAccount (σ : HashOrder) (e : Address × DbAccount) : WriteBatch :=
  match e.2.accountState with
  -- the record goes; what the account had in the storage table is not named
  | .notExisting => [.deleteAccount e.1]
  -- cleared or not, the cached slots are put over what is there
  | .touched | .storageCleared =>
      .setAccount e.1 e.2.info
        :: (σ.entries e.2.storage).map (fun s => .setStorage e.1 s.1 s.2)
  -- loaded and not modified
  | .none => []

/-- The write for one cached contract; empty code is not stored. -/
def flushContract (e : B256 × Bytes) : WriteBatch :=
  if e.2.isEmpty then [] else [.setCode e.1 e.2]

/-- The batch `flush_cache_to_db` builds. -/
def flushBatch (σ : HashOrder) (c : Cache) (blockNumber : Option U64) : WriteBatch :=
  (σ.entries c.accounts).flatMap (flushAccount σ)
    ++ (σ.entries c.contracts).flatMap flushContract
    ++ (blockNumber.map Write.setHeadBlock).toList

/-- Write the overlay to the database in one commit. -/
def flushCacheToDb (σ : HashOrder) (db : StateDb) (c : Cache) (blockNumber : Option U64) : StateDb :=
  db.commit (flushBatch σ c blockNumber)

/-! ## Applying state diffs -/

/-- The diffs of a block by address, each address keeping its own order. -/
def groupByAddress (diffs : List StateDiff) : HashMap Address (List StateDiff) :=
  diffs.foldl
    (fun m d =>
      match d.address with
      | some a => m.insert a ((m[a]?).getD [] ++ [d])
      -- a diff without an address is dropped
      | none => m)
    ∅

/-- A diff that deletes its whole account. -/
def isDeletion (d : StateDiff) : Bool :=
  d.kind == some "-"
    && (d.key == some "balance" || d.key == some "nonce" || d.key == some "code")

/-- One turn of the loop over an address's diffs. -/
def applyDiff (keccak256 : Bytes → B256) (a : Address) (st : AccountInfo × WriteBatch)
    (d : StateDiff) : AccountInfo × WriteBatch :=
  match d.key, d.next with
  | some key, some next =>
      match key with
      -- a number that does not parse counts as zero
      | "nonce" => ({ st.1 with nonce := (U64.fromStrRadix (hexBody next) 16).getD 0 }, st.2)
      | "balance" => ({ st.1 with balance := (U256.fromStrRadix (hexBody next) 16).getD 0 }, st.2)
      | "code" =>
          match hexDecode (hexBody next) with
          | some bytecode =>
              ({ st.1 with codeHash := keccak256 bytecode },
                st.2 ++ [.setCode (keccak256 bytecode) bytecode])
          | none => st
      -- any other key is tried as a storage slot
      | slotHex =>
          match B256.parse slotHex with
          | some slot =>
              if d.kind == some "-" then (st.1, st.2 ++ [.deleteStorage a slot])
              else
                (st.1, st.2 ++ [.setStorage a slot ((U256.fromStrRadix (hexBody next) 16).getD 0)])
          | none => st
  -- no key or no new value: passed over, whatever its kind
  | _, _ => st

/-- The writes for one address. Any deletion discards the address's other diffs. -/
def addressBatch (keccak256 : Bytes → B256) (db : StateDb) (e : Address × List StateDiff) :
    Except DbError WriteBatch :=
  if e.2.any isDeletion then .ok [.deleteAccount e.1]
  else
    match db.getAccount e.1 with
    | .ok acct =>
        -- the record is read before the loop and written after it
        let st := e.2.foldl (applyDiff keccak256 e.1) (acct.getD .zero, [])
        .ok (st.2 ++ [.setAccount e.1 st.1])
    | .error err => .error err

/-- The batch `apply_state_diffs` builds. -/
def diffBatch (keccak256 : Bytes → B256) (σ : HashOrder) (db : StateDb) (block : Block) :
    Except DbError WriteBatch :=
  match (σ.entries (groupByAddress block.stateDiffs)).mapM (addressBatch keccak256 db) with
  | .ok batches => .ok (batches.flatten ++ [.setHeadBlock block.header.number])
  | .error err => .error err

/-- Apply a block's state diffs in one commit, which also moves the head. -/
def applyStateDiffs (keccak256 : Bytes → B256) (σ : HashOrder) (db : StateDb) (block : Block) :
    Except ReplayError StateDb :=
  match diffBatch keccak256 σ db block with
  | .ok b => .ok (db.commit b)
  | .error err => .error (.db err)

/-! ## Executing the transactions -/

section Execute

variable (evm : Evm) (db : StateDb) (spec : ChainSpec) (block : Block)

/-- The configuration every transaction of the block runs under. -/
def replayCfg : CfgEnv where
  spec := spec.specAt block.header.number (block.header.timestamp.getD 0)
  chainId := spec.chainId
  disableBalanceCheck := spec.disableBalanceCheck

/-- System transactions run with the block's gas limit and no gas price. -/
def replayTxEnv (tx : Transaction) : TxEnv :=
  if isSystemTx tx then
    { txEnvFromTransaction tx spec.chainId with
      gasLimit := (blockEnvFromHeader block.header).gasLimit
      gasPrice := 0 }
  else txEnvFromTransaction tx spec.chainId

/-- The execution a transaction starts. -/
def replayExecution (tx : Transaction) : Execution :=
  if isSystemTx tx then
    evm.runSystemCall (replayCfg spec block) (blockEnvFromHeader block.header)
      (replayTxEnv spec block tx)
  else
    evm.replay (replayCfg spec block) (blockEnvFromHeader block.header)
      (replayTxEnv spec block tx)

/-- One turn of the loop over the block's transactions. -/
def executeTx (idx : Nat) (tx : Transaction) (c : Cache) : Except ReplayError (TxResult × Cache) :=
  -- with diffs at hand, system transactions are left to them
  if isSystemTx tx && !block.stateDiffs.isEmpty then .ok (⟨0, true⟩, c)
  else
    match evm.run db (replayExecution evm spec block tx) c with
    | .ok (r, c') => .ok (⟨r.result.gasUsed, r.result.isSuccess⟩, evm.commit c' r.state)
    | .error err =>
        .error (.evm block.header.number idx (isSystemTx tx) err tx.fromAddr tx.toAddr tx.hash)

/-- The loop over the block's transactions. -/
def executeTxs : Nat → List Transaction → Cache → Except ReplayError (List TxResult × Cache)
  | _, [], c => .ok ([], c)
  | idx, tx :: txs, c =>
      match executeTx evm db spec block idx tx c with
      | .ok (r, c') =>
          match executeTxs (idx + 1) txs c' with
          | .ok (rs, c'') => .ok (r :: rs, c'')
          | .error err => .error err
      | .error err => .error err

end Execute

/-- What a replay leaves behind: the database after each commit, and the result. -/
structure Replay where
  commits : List StateDb
  result : Except ReplayError BlockResult

/-- The database a replay leaves. -/
def Replay.db (r : Replay) (db : StateDb) : StateDb := r.commits.getLast?.getD db

/-- The database left by a process that stops after `k` commits. -/
def Replay.dbAfter (r : Replay) (k : Nat) (db : StateDb) : StateDb :=
  (r.commits.take k).getLast?.getD db

/-- Replay all transactions of a block against the database. -/
def replayBlock (evm : Evm) (keccak256 : Bytes → B256) (σ : HashOrder) (db : StateDb)
    (block : Block) (spec : ChainSpec) : Replay :=
  match executeTxs evm db spec block 0 block.transactions .new with
  | .error err => ⟨[], .error err⟩
  | .ok (txResults, c) =>
      if block.stateDiffs.isEmpty then
        ⟨[flushCacheToDb σ db c (some block.header.number)], .ok ⟨block.header.number, txResults⟩⟩
      else
        -- the head moves with the second commit only
        let db₁ := flushCacheToDb σ db c none
        match applyStateDiffs keccak256 σ db₁ block with
        | .ok db₂ => ⟨[db₁, db₂], .ok ⟨block.header.number, txResults⟩⟩
        | .error err => ⟨[db₁], .error err⟩

end EvmState
