import Mathlib.Data.List.AList
import TruthSeeker.Framework.Handler
import TruthSeeker.Framework.Tables
import TruthSeeker.Model.Block

namespace TruthSeeker.Indexing

/-- Milliseconds since 1970. -/
abbrev DateTime := Int

inductive TransactionTypeDb where
  | blobTransaction
  | proofTransaction
  deriving DecidableEq

inductive TransactionStatusDb where
  | waitingDissemination
  | dataProposalCreated
  | success
  | failure
  | sequenced
  | timedOut
  deriving DecidableEq

namespace TransactionStatusDb

/-- Whether the status is from before consensus. -/
def isEarly : TransactionStatusDb → Bool
  | .waitingDissemination => true
  | .dataProposalCreated => true
  | _ => false

end TransactionStatusDb

/-- A status that a block gives to a transaction that was sequenced. -/
abbrev SettledStatus := {status : TransactionStatusDb // status.isEarly=false}

structure BlockRow where
  parentHash : ConsensusProposalHash
  height : Nat
  timestamp : DateTime
  totalTxs : Nat
  deriving DecidableEq

structure TransactionRow where
  version : Nat
  transactionType : TransactionTypeDb
  transactionStatus : TransactionStatusDb
  blockHash : Option ConsensusProposalHash
  blockHeight : Option Nat
  laneId : Option LaneId
  index : Option Nat
  identity : Option Identity
  deriving DecidableEq

structure BlobRow where
  identity : Identity
  contractName : ContractName
  data : Bytes
  verified : Bool
  deriving DecidableEq

structure BlobProofOutputRow where
  proofTx : TxId
  contractName : ContractName
  hyleOutput : HyleOutput
  settled : Bool
  deriving DecidableEq

/-- No timeout is stored as a null. -/
structure ContractRow where
  tx : TxId
  verifier : Verifier
  programId : ProgramId
  timeoutWindow : Option Nat
  stateCommitment : StateCommitment
  deriving DecidableEq

/-- The transaction of a blob and its index in it. -/
abbrev BlobKey := TxId × Nat

/-- A blob and the index of one of its outputs. -/
abbrev OutputKey := BlobKey × Nat

structure TxDataStore where
  tx : TxId
  blobIndex : Nat
  identity : Identity
  contractName : ContractName
  blobData : Bytes
  verified : Bool

structure TxProofStore where
  tx : TxId
  proof : ProofData

structure TxEventStore where
  blockHash : ConsensusProposalHash
  blockHeight : Nat
  index : Nat
  tx : TxId
  events : List TransactionStateEvent
  deriving DecidableEq

structure TxContractStore where
  tx : TxId
  verifier : Verifier
  programId : ProgramId
  timeoutWindow : Option TimeoutWindow
  stateCommitment : StateCommitment
  contractName : ContractName

structure TxContractStateStore where
  contractName : ContractName
  blockHash : ConsensusProposalHash
  stateCommitment : StateCommitment

structure TxBlobProofOutputStore where
  proofTx : TxId
  blobTx : TxId
  blobIndex : Nat
  blobProofOutputIndex : Nat
  contractName : ContractName
  hyleOutput : HyleOutput
  settled : Bool

/-- The `UPDATE` statements that a block leads to, by the column that they set. -/
inductive SqlUpdate where
  | transactionStatus (tx : TxId) (status : SettledStatus)
  | blobVerified (blob : BlobKey)
  | outputSettled (output : OutputKey)
  | contractState (name : ContractName) (blockHash : ConsensusProposalHash)
      (state : StateCommitment)
  | stateCommitment (name : ContractName) (state : StateCommitment)
  | programId (name : ContractName) (programId : ProgramId)
  | timeoutWindow (name : ContractName) (window : TimeoutWindow)
  deriving DecidableEq

/-- The tables. The index on the height of the blocks is one of them, and the outputs have the
columns for their key that are unique. -/
structure Db where
  blocks : Table ConsensusProposalHash BlockRow
  heights : Table Nat ConsensusProposalHash
  transactions : Table TxId TransactionRow
  blobs : Table BlobKey BlobRow
  txsContracts : Table (TxId × ContractName) Unit
  proofs : Table TxId ProofData
  blobProofOutputs : Table OutputKey BlobProofOutputRow
  contracts : Table ContractName ContractRow
  contractState : Table (ContractName × ConsensusProposalHash) StateCommitment
  transactionStateEvents : List TxEventStore

def Db.empty : Db :=
  ⟨Table.empty,Table.empty,Table.empty,Table.empty,Table.empty,Table.empty,Table.empty,
    Table.empty,Table.empty,[]⟩

/-- What waits to be dumped. -/
structure IndexerHandlerStore where
  blocks : List Block
  blockTxs : AList fun _ : TxId => Nat × Block × Transaction
  txData : List TxDataStore
  txDataProofs : List TxProofStore
  transactionsEvents : List TxEventStore
  sqlUpdates : List SqlUpdate
  contracts : AList fun _ : ContractName => TxContractStore
  contractStates : List TxContractStateStore
  deletedContracts : Finset ContractName
  blobProofOutputs : List TxBlobProofOutputStore

def IndexerHandlerStore.default : IndexerHandlerStore := ⟨[],∅,[],[],[],[],∅,[],∅,[]⟩

def toI32 (n : Nat) : Option Nat := if n<2^31 then some n else none

def toI64 (n : Nat) : Option Nat := if n<2^63 then some n else none

section Blocks

/-- A proof that was not verified yet is not stored. -/
def IndexerHandlerStore.insertTxData (self : IndexerHandlerStore) (txId : TxId)
    (tx : Transaction) : IndexerHandlerStore :=
  match tx.transactionData with
  | .blob blobTx =>
      { self with txData := self.txData++blobTx.blobs.mapIdx fun i blob =>
          ⟨txId,(toI32 i).getD 0,blobTx.identity,blob.contractName,blob.data,false⟩ }
  | .verifiedProof proofTx =>
      { self with txDataProofs := self.txDataProofs++
          (proofTx.proof.map fun proof => ⟨txId,proof⟩).toList }
  | .proof _ => self

variable (block : Block)

/-- The transaction as the block locates it. -/
def located (what : String) (txHash : TxHash) : Handler IndexerHandlerStore TxId :=
  match block.dpParentHashes[txHash]? with
  | some parentHash => pure ⟨parentHash,txHash⟩
  | none => .fail s!"No parent data proposal hash present for {what} {txHash}"

def blobIndexDb (index : BlobIndex) : Handler IndexerHandlerStore Nat :=
  match toI32 index.toNat with
  | some index => pure index
  | none => .fail "Blob index is too large to fit into an i32"

def outputIndexDb (index : Nat) : Handler IndexerHandlerStore Nat :=
  match toI32 index with
  | some index => pure index
  | none => .fail "Blob proof output index is too large to fit into an i32"

def blockHeightDb : Handler IndexerHandlerStore Nat :=
  match toI64 block.blockHeight.toNat with
  | some height => pure height
  | none => .fail "Block height is too large to fit into an i64"

def pushUpdate (update : SqlUpdate) : Handler IndexerHandlerStore Unit :=
  .modify fun store => { store with sqlUpdates := store.sqlUpdates++[update] }

def noteTx (entry : (TxId × Transaction) × Nat) : Handler IndexerHandlerStore Unit :=
  .modify fun store =>
    let blockTxs := store.blockTxs.insert entry.1.1 (entry.2,block,entry.1.2)
    { store with blockTxs := blockTxs }.insertTxData entry.1.1 entry.1.2

def noteEvents (blockHeight : Nat) (entry : (TxHash × List TransactionStateEvent) × Nat) :
    Handler IndexerHandlerStore Unit := do
  let tx ← located block "tx" entry.1.1
  .modify fun store => { store with transactionsEvents := store.transactionsEvents++
    [⟨block.hash,blockHeight,entry.2,tx,entry.1.2⟩] }

def noteStatus (what : String) (status : SettledStatus) (txHash : TxHash) :
    Handler IndexerHandlerStore Unit := do
  let tx ← located block what txHash
  pushUpdate (.transactionStatus tx status)

def noteBlobProofOutput (handled : HandledBlobProofOutput) :
    Handler IndexerHandlerStore Unit := do
  let proofTx ← located block "proof tx" handled.proofTxHash
  let blobTx ← located block "blob tx" handled.blobTxHash
  let blobIndex ← blobIndexDb handled.blobIndex
  let outputIndex ← outputIndexDb handled.blobProofOutputIndex
  .modify fun store => { store with blobProofOutputs := store.blobProofOutputs++
    [⟨proofTx,blobTx,blobIndex,outputIndex,handled.contractName,handled.hyleOutput,false⟩] }

/-- Must come after the outputs, as it updates those. -/
def noteVerifiedBlob (verified : TxHash × BlobIndex × Option Nat) :
    Handler IndexerHandlerStore Unit := do
  let tx ← located block "verified blob tx" verified.1
  let blobIndex ← blobIndexDb verified.2.1
  pushUpdate (.blobVerified (tx,blobIndex))
  match verified.2.2 with
  | none => pure ()
  | some index => do
      let outputIndex ← outputIndexDb index
      pushUpdate (.outputSettled ((tx,blobIndex),outputIndex))

/-- If the contract had previously been deleted, that is cleared. -/
def noteRegistered (registered : TxHash × RegisterContractEffect × Option Bytes) :
    Handler IndexerHandlerStore Unit := do
  let contract := registered.2.1
  let tx ← located block "registered contract tx" registered.1
  .modify fun store => { store with
    deletedContracts := store.deletedContracts.erase contract.contractName
    contracts := store.contracts.insert contract.contractName ⟨tx,contract.verifier,
      contract.programId,contract.timeoutWindow,contract.stateCommitment,contract.contractName⟩
    contractStates := store.contractStates++
      [⟨contract.contractName,block.hash,contract.stateCommitment⟩] }

/-- What becomes of the contracts whose fields the block has changed. -/
def contractUpdates : List SqlUpdate :=
  (block.updatedStates.toList.flatMap fun p =>
      [.contractState p.1 block.hash p.2,.stateCommitment p.1 p.2])++
    (block.updatedProgramIds.toList.map fun p => .programId p.1 p.2)++
    block.updatedTimeoutWindows.toList.map fun p => .timeoutWindow p.1 p.2

/-- After the transactions, as it refers to those. -/
def noteContracts : Handler IndexerHandlerStore Unit := do
  (block.registeredContracts.toList.map Prod.snd).forM (noteRegistered block)
  .modify fun store => { store with
    deletedContracts := store.deletedContracts∪block.deletedContracts.keys.toFinset
    sqlUpdates := store.sqlUpdates++contractUpdates block }

def noteTxs : Handler IndexerHandlerStore Unit := do
  let blockHeight ← blockHeightDb block
  block.txs.zipIdx.forM (noteTx block)
  block.transactionsEvents.toList.zipIdx.forM (noteEvents block blockHeight)
  block.successfulTxs.forM (noteStatus block "settled blob tx" ⟨.success,rfl⟩)
  block.failedTxs.forM (noteStatus block "failed blob tx" ⟨.failure,rfl⟩)
  block.timedOutTxs.forM (noteStatus block "timed out tx" ⟨.timedOut,rfl⟩)
  block.blobProofOutputs.forM (noteBlobProofOutput block)
  block.verifiedBlobs.forM (noteVerifiedBlob block)

def handleProcessedBlock : Handler IndexerHandlerStore Unit := do
  .modify fun store => { store with blocks := store.blocks++[block] }
  noteTxs block
  noteContracts block

end Blocks

section Statements

/-- One of the statements of a dump. What it inserts is taken out of the store before it runs. -/
structure Stage where
  execute : IndexerHandlerStore → Db → Option Db
  drain : IndexerHandlerStore → IndexerHandlerStore

/-- Where the timestamp cannot be converted, the current time is the fallback. -/
def intoUtcDateTime (fromTimestampMillis : Nat → Option DateTime) (ts : TimestampMs) :
    Option DateTime :=
  (toI64 ts.toNat).bind fromTimestampMillis

variable (fromTimestampMillis : Nat → Option DateTime) (now : DateTime)

def heightDb (block : Block) : Nat := (toI64 block.blockHeight.toNat).getD 0

def blockRow (block : Block) : ConsensusProposalHash × BlockRow :=
  (block.hash,⟨block.parentHash,heightDb block,
    (intoUtcDateTime fromTimestampMillis block.blockTimestamp).getD now,block.txs.length⟩)

def heightRow (block : Block) : Nat × ConsensusProposalHash := (heightDb block,block.hash)

def insertingBlocks : Stage where
  execute store db := do
    guard (∀ block ∈ store.blocks,block.hash.length=64)
    let blocks ← db.blocks.insert (store.blocks.map (blockRow fromTimestampMillis now))
    let heights ← db.heights.insert (store.blocks.map heightRow)
    return { db with blocks := blocks, heights := heights }
  drain store := { store with blocks := [] }

def TransactionTypeDb.ofData : TransactionData → TransactionTypeDb
  | .blob _ => .blobTransaction
  | .proof _ => .proofTransaction
  | .verifiedProof _ => .proofTransaction

def statusOf : TransactionData → SettledStatus
  | .blob _ => ⟨.sequenced,rfl⟩
  | .proof _ => ⟨.success,rfl⟩
  | .verifiedProof _ => ⟨.success,rfl⟩

def identityOf : TransactionData → Option Identity
  | .blob tx => some tx.identity
  | _ => none

/-- The row of a transaction that is new to the table. -/
def transactionRow (txHash : TxHash) (entry : Nat × Block × Transaction) : TransactionRow :=
  let (index,block,tx) := entry
  { version := (toI32 tx.version.toNat).getD 0
    transactionType := .ofData tx.transactionData
    transactionStatus := statusOf tx.transactionData
    blockHash := some block.hash
    blockHeight := some (heightDb block)
    laneId := some (block.laneIds.getD txHash [])
    index := some index
    identity := identityOf tx.transactionData }

/-- This data comes from after consensus: it erases earlier statuses, but not later ones. -/
def onConflict (old new : TransactionRow) : TransactionRow :=
  { old with
    blockHash := new.blockHash
    blockHeight := new.blockHeight
    index := new.index
    laneId := new.laneId
    identity := new.identity
    transactionStatus :=
      if old.transactionStatus.isEarly then new.transactionStatus else old.transactionStatus }

/-- The column for the height of the block is smaller than the value. -/
def insertingTransactions : Stage where
  execute store db := do
    guard (∀ entry ∈ store.blockTxs.entries,entry.1.txHash.length=64 ∧
      heightDb entry.2.2.1<2^31 ∧ (db.blocks entry.2.2.1.hash).isSome)
    let rows : Table TxId TransactionRow := fun txId =>
      (store.blockTxs.lookup txId).map (transactionRow txId.txHash)
    return { db with transactions := db.transactions.upsert onConflict rows }
  drain store := { store with blockTxs := ∅ }

def blobRow (data : TxDataStore) : BlobKey × BlobRow :=
  ((data.tx,data.blobIndex),⟨data.identity,data.contractName,data.blobData,data.verified⟩)

def insertingBlobs : Stage where
  execute store db := do
    guard (∀ data ∈ store.txData,(db.transactions data.tx).isSome)
    return { db with
      blobs := db.blobs.insertIgnoring (store.txData.map blobRow)
      txsContracts := db.txsContracts.insertIgnoring
        (store.txData.map fun data => ((data.tx,data.contractName),())) }
  drain store := { store with txData := [] }

def insertingProofs : Stage where
  execute store db := do
    guard (∀ proof ∈ store.txDataProofs,(db.transactions proof.tx).isSome)
    return { db with
      proofs := db.proofs.insertIgnoring
        (store.txDataProofs.map fun proof => (proof.tx,proof.proof)) }
  drain store := { store with txDataProofs := [] }

def insertingEvents : Stage where
  execute store db := do
    guard (∀ event ∈ store.transactionsEvents,event.blockHeight<2^31 ∧
      (db.blocks event.blockHash).isSome ∧ (db.transactions event.tx).isSome)
    return { db with transactionStateEvents :=
      db.transactionStateEvents++store.transactionsEvents }
  drain store := { store with transactionsEvents := [] }

/-- The value of the column, if the window can be encoded. -/
def timeoutWindowDb : TimeoutWindow → Option (Option Nat)
  | .noTimeout => some none
  | .timeout height => (toI64 height.toNat).map some

def contractRow (contract : TxContractStore) : ContractRow where
  tx := contract.tx
  verifier := contract.verifier
  programId := contract.programId
  timeoutWindow := (contract.timeoutWindow.bind timeoutWindowDb).join
  stateCommitment := contract.stateCommitment

def insertingContracts : Stage where
  execute store db := do
    guard (∀ entry ∈ store.contracts.entries,(db.transactions entry.2.tx).isSome ∧
      ∀ window ∈ entry.2.timeoutWindow,(timeoutWindowDb window).isSome)
    return { db with contracts := db.contracts.upsert (fun _ new => new) fun name =>
      (store.contracts.lookup name).map contractRow }
  drain store := { store with contracts := ∅ }

def insertingContractStates : Stage where
  execute store db := do
    guard (∀ state ∈ store.contractStates,(db.blocks state.blockHash).isSome)
    let contractState ← db.contractState.insert (store.contractStates.map fun state =>
      ((state.contractName,state.blockHash),state.stateCommitment))
    return { db with contractState := contractState }
  drain store := { store with contractStates := [] }

def deletingContracts : Stage where
  execute store db := some { db with contracts := db.contracts.delete store.deletedContracts }
  drain store := { store with deletedContracts := ∅ }

def outputRow (output : TxBlobProofOutputStore) : OutputKey × BlobProofOutputRow :=
  (((output.blobTx,output.blobIndex),output.blobProofOutputIndex),
    ⟨output.proofTx,output.contractName,output.hyleOutput,output.settled⟩)

def insertingBlobProofOutputs : Stage where
  execute store db := do
    guard (∀ output ∈ store.blobProofOutputs,
      (db.blobs (output.blobTx,output.blobIndex)).isSome ∧
        (db.transactions output.blobTx).isSome ∧ (db.transactions output.proofTx).isSome)
    let outputs ← db.blobProofOutputs.insert (store.blobProofOutputs.map outputRow)
    return { db with blobProofOutputs := outputs }
  drain store := { store with blobProofOutputs := [] }

namespace SqlUpdate

def execute (db : Db) : SqlUpdate → Option Db
  | .transactionStatus tx status => some { db with
      transactions := db.transactions.update fun key row =>
        if key=tx then { row with transactionStatus := status } else row }
  | .blobVerified blob => some { db with
      blobs := db.blobs.update fun key row =>
        if key=blob then { row with verified := true } else row }
  | .outputSettled output => some { db with
      blobProofOutputs := db.blobProofOutputs.update fun key row =>
        if key=output then { row with settled := true } else row }
  | .contractState name blockHash state => some { db with
      contractState := db.contractState.update fun key row =>
        if key=(name,blockHash) then state else row }
  | .stateCommitment name state => some { db with
      contracts := db.contracts.update fun key row =>
        if key=name then { row with stateCommitment := state } else row }
  | .programId name program => some { db with
      contracts := db.contracts.update fun key row =>
        if key=name then { row with programId := program } else row }
  | .timeoutWindow name window => (timeoutWindowDb window).map fun window => { db with
      contracts := db.contracts.update fun key row =>
        if key=name then { row with timeoutWindow := window } else row }

end SqlUpdate

def executingUpdates : Stage where
  execute store db := store.sqlUpdates.foldlM SqlUpdate.execute db
  drain store := { store with sqlUpdates := [] }

def stages : List Stage :=
  [insertingBlocks fromTimestampMillis now,insertingTransactions,insertingBlobs,insertingProofs,
    insertingEvents,insertingContracts,insertingContractStates,deletingContracts,
    insertingBlobProofOutputs,executingUpdates]

/-- A statement that fails ends the transaction. -/
def runStages : List Stage → IndexerHandlerStore → Db → IndexerHandlerStore × Option Db
  | [],store,db => (store,some db)
  | stage::stages,store,db =>
      match stage.execute store db with
      | some next => runStages stages (stage.drain store) next
      | none => (stage.drain store,none)

end Statements

/-- The tables, and what is not in them yet. -/
structure Indexer where
  db : Db
  handlerStore : IndexerHandlerStore

namespace Indexer

/-- An error is logged, and what was noted before it stays. -/
def handleBlock (self : Indexer) (block : Block) : Indexer :=
  { self with handlerStore := (handleProcessedBlock block self.handlerStore).2 }

variable (fromTimestampMillis : Nat → Option DateTime)

/-- If the transaction is rolled back, what its statements had taken is in no table. -/
def dumpStoreToDb (now : DateTime) (self : Indexer) : Indexer :=
  if self.handlerStore.blocks.isEmpty then self
  else
    match runStages (stages fromTimestampMillis now) self.handlerStore self.db with
    | (store,some db) => ⟨db,store⟩
    | (store,none) => ⟨self.db,store⟩

/-- Some blocks and then a dump at the given time. -/
def dumpGroup (self : Indexer) (group : List Block × DateTime) : Indexer :=
  (group.1.foldl handleBlock self).dumpStoreToDb fromTimestampMillis group.2

end Indexer

end TruthSeeker.Indexing
