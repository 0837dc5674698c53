import TruthSeeker.Indexer.Handler

namespace TruthSeeker.Indexing

namespace SqlUpdate

/-- Whether the values can be bound to the statement. -/
def Encodes : SqlUpdate → Prop
  | .timeoutWindow _ window => (timeoutWindowDb window).isSome
  | _ => True

instance : DecidablePred Encodes
  | .timeoutWindow _ window => inferInstanceAs (Decidable ((timeoutWindowDb window).isSome=true))
  | .transactionStatus _ _ | .blobVerified _ | .outputSettled _ | .contractState _ _ _
  | .stateCommitment _ _ | .programId _ _ => inferInstanceAs (Decidable True)

/-- What becomes of a transaction. -/
def onTransaction (key : TxId) (row : TransactionRow) : SqlUpdate → TransactionRow
  | .transactionStatus tx status =>
      if key=tx then { row with transactionStatus := status } else row
  | _ => row

def onBlob (key : BlobKey) (row : BlobRow) : SqlUpdate → BlobRow
  | .blobVerified blob => if key=blob then { row with verified := true } else row
  | _ => row

def onOutput (key : OutputKey) (row : BlobProofOutputRow) : SqlUpdate → BlobProofOutputRow
  | .outputSettled output => if key=output then { row with settled := true } else row
  | _ => row

def onContractState (key : ContractName × ConsensusProposalHash) (row : StateCommitment) :
    SqlUpdate → StateCommitment
  | .contractState name blockHash state => if key=(name,blockHash) then state else row
  | _ => row

def onContract (key : ContractName) (row : ContractRow) : SqlUpdate → ContractRow
  | .stateCommitment name state =>
      if key=name then { row with stateCommitment := state } else row
  | .programId name program => if key=name then { row with programId := program } else row
  | .timeoutWindow name window =>
      if key=name then { row with timeoutWindow := (timeoutWindowDb window).join } else row
  | _ => row

end SqlUpdate

/-- The tables after some updates, each of which changes rows only. -/
def Db.apply (self : Db) (updates : List SqlUpdate) : Db :=
  { self with
    transactions := self.transactions.update fun key row =>
      updates.foldl (SqlUpdate.onTransaction key) row
    blobs := self.blobs.update fun key row => updates.foldl (SqlUpdate.onBlob key) row
    blobProofOutputs := self.blobProofOutputs.update fun key row =>
      updates.foldl (SqlUpdate.onOutput key) row
    contractState := self.contractState.update fun key row =>
      updates.foldl (SqlUpdate.onContractState key) row
    contracts := self.contracts.update fun key row =>
      updates.foldl (SqlUpdate.onContract key) row }

namespace Db
variable (self : Db)

theorem apply_nil : self.apply []=self := by
  have same : ∀ {κ ρ : Type} (table : Table κ ρ),table.update (fun _ row => row)=table := by
    intro κ ρ table
    funext key
    exact Option.map_id'
  simp only [Db.apply,List.foldl_nil,same]

theorem apply_append (updates more : List SqlUpdate) :
    self.apply (updates++more)=(self.apply updates).apply more := by
  simp only [Db.apply,Table.update_update,List.foldl_append]

theorem execute_of_encodes {update : SqlUpdate} (h : update.Encodes) :
    update.execute self=some (self.apply [update]) := by
  have same : ∀ {κ ρ : Type} (table : Table κ ρ),table.update (fun _ row => row)=table := by
    intro κ ρ table
    funext key
    exact Option.map_id'
  cases update with
  | timeoutWindow name window =>
    obtain ⟨column,hc⟩ := Option.isSome_iff_exists.mp h
    simp [SqlUpdate.execute,Db.apply,SqlUpdate.onTransaction,SqlUpdate.onBlob,
      SqlUpdate.onOutput,SqlUpdate.onContractState,SqlUpdate.onContract,same,hc]
  | _ =>
    simp [SqlUpdate.execute,Db.apply,SqlUpdate.onTransaction,SqlUpdate.onBlob,
      SqlUpdate.onOutput,SqlUpdate.onContractState,SqlUpdate.onContract,same]

theorem foldlM_execute {updates : List SqlUpdate} (h : ∀ update ∈ updates,update.Encodes) :
    updates.foldlM SqlUpdate.execute self=some (self.apply updates) := by
  induction updates generalizing self with
  | nil => rw [apply_nil]; rfl
  | cons update updates ih =>
    rw [List.foldlM_cons,execute_of_encodes self (h update List.mem_cons_self)]
    have rest := ih (self.apply [update]) fun u hu => h u (List.mem_cons_of_mem _ hu)
    rw [← apply_append] at rest
    exact rest

end Db

namespace IndexerHandlerStore

section Rows
variable (fromTimestampMillis : Nat → Option DateTime) (now : DateTime)
  (store : IndexerHandlerStore)

def blockRows : List (ConsensusProposalHash × BlockRow) :=
  store.blocks.map (blockRow fromTimestampMillis now)

def transactionRows : Table TxId TransactionRow := fun tx =>
  (store.blockTxs.lookup tx).map (transactionRow tx.txHash)

def stateRows : List ((ContractName × ConsensusProposalHash) × StateCommitment) :=
  store.contractStates.map fun state =>
    ((state.contractName,state.blockHash),state.stateCommitment)

def contractRows : Table ContractName ContractRow := fun name =>
  (store.contracts.lookup name).map contractRow

/-- The tables with the rows of the store, without those of deleted contracts. -/
def inserted (db : Db) : Db where
  blocks := db.blocks.insertIgnoring (store.blockRows fromTimestampMillis now)
  heights := db.heights.insertIgnoring (store.blocks.map heightRow)
  transactions := db.transactions.upsert onConflict store.transactionRows
  blobs := db.blobs.insertIgnoring (store.txData.map blobRow)
  txsContracts := db.txsContracts.insertIgnoring
    (store.txData.map fun data => ((data.tx,data.contractName),()))
  proofs := db.proofs.insertIgnoring
    (store.txDataProofs.map fun proof => (proof.tx,proof.proof))
  blobProofOutputs := db.blobProofOutputs.insertIgnoring (store.blobProofOutputs.map outputRow)
  contracts := (db.contracts.upsert (fun _ new => new) store.contractRows).delete
    store.deletedContracts
  contractState := db.contractState.insertIgnoring store.stateRows
  transactionStateEvents := db.transactionStateEvents++store.transactionsEvents

/-- The tables with all that waits in the store. -/
def written (db : Db) : Db := (store.inserted fromTimestampMillis now db).apply store.sqlUpdates

/-- All constraints of the tables are met. -/
structure Admits (db : Db) : Prop where
  blocks : (∀ block ∈ store.blocks,block.hash.length=64) ∧
    Table.Fresh (store.blockRows fromTimestampMillis now) db.blocks ∧
    Table.Fresh (store.blocks.map heightRow) db.heights
  transactions : ∀ entry ∈ store.blockTxs.entries,entry.1.txHash.length=64 ∧
    heightDb entry.2.2.1<2^31 ∧
      ((store.written fromTimestampMillis now db).blocks entry.2.2.1.hash).isSome=true
  blobs : ∀ data ∈ store.txData,
    ((store.written fromTimestampMillis now db).transactions data.tx).isSome=true
  proofs : ∀ proof ∈ store.txDataProofs,
    ((store.written fromTimestampMillis now db).transactions proof.tx).isSome=true
  events : ∀ event ∈ store.transactionsEvents,event.blockHeight<2^31 ∧
    ((store.written fromTimestampMillis now db).blocks event.blockHash).isSome=true ∧
      ((store.written fromTimestampMillis now db).transactions event.tx).isSome=true
  contracts : ∀ entry ∈ store.contracts.entries,
    ((store.written fromTimestampMillis now db).transactions entry.2.tx).isSome=true ∧
      ∀ window ∈ entry.2.timeoutWindow,(timeoutWindowDb window).isSome=true
  states : (∀ state ∈ store.contractStates,
    ((store.written fromTimestampMillis now db).blocks state.blockHash).isSome=true) ∧
      Table.Fresh store.stateRows db.contractState
  outputs : (∀ output ∈ store.blobProofOutputs,
    ((store.written fromTimestampMillis now db).blobs (output.blobTx,output.blobIndex)).isSome=true ∧
      ((store.written fromTimestampMillis now db).transactions output.blobTx).isSome=true ∧
      ((store.written fromTimestampMillis now db).transactions output.proofTx).isSome=true) ∧
        Table.Fresh (store.blobProofOutputs.map outputRow) db.blobProofOutputs
  updates : ∀ update ∈ store.sqlUpdates,update.Encodes

instance (db : Db) : Decidable (store.Admits fromTimestampMillis now db) :=
  decidable_of_iff (((∀ block ∈ store.blocks,block.hash.length=64) ∧
      Table.Fresh (store.blockRows fromTimestampMillis now) db.blocks ∧
        Table.Fresh (store.blocks.map heightRow) db.heights) ∧
      (∀ entry ∈ store.blockTxs.entries,entry.1.txHash.length=64 ∧
        heightDb entry.2.2.1<2^31 ∧
          ((store.written fromTimestampMillis now db).blocks entry.2.2.1.hash).isSome=true) ∧
      (∀ data ∈ store.txData,
        ((store.written fromTimestampMillis now db).transactions data.tx).isSome=true) ∧
      (∀ proof ∈ store.txDataProofs,
        ((store.written fromTimestampMillis now db).transactions proof.tx).isSome=true) ∧
      (∀ event ∈ store.transactionsEvents,event.blockHeight<2^31 ∧
        ((store.written fromTimestampMillis now db).blocks event.blockHash).isSome=true ∧
          ((store.written fromTimestampMillis now db).transactions event.tx).isSome=true) ∧
      (∀ entry ∈ store.contracts.entries,
        ((store.written fromTimestampMillis now db).transactions entry.2.tx).isSome=true ∧
          ∀ window ∈ entry.2.timeoutWindow,(timeoutWindowDb window).isSome=true) ∧
      ((∀ state ∈ store.contractStates,
        ((store.written fromTimestampMillis now db).blocks state.blockHash).isSome=true) ∧
          Table.Fresh store.stateRows db.contractState) ∧
      ((∀ output ∈ store.blobProofOutputs,
        ((store.written fromTimestampMillis now db).blobs
            (output.blobTx,output.blobIndex)).isSome=true ∧
          ((store.written fromTimestampMillis now db).transactions output.blobTx).isSome=true ∧
          ((store.written fromTimestampMillis now db).transactions output.proofTx).isSome=true) ∧
            Table.Fresh (store.blobProofOutputs.map outputRow) db.blobProofOutputs) ∧
      ∀ update ∈ store.sqlUpdates,update.Encodes)
    ⟨fun ⟨blocks,transactions,blobs,proofs,events,contracts,states,outputs,updates⟩ =>
        ⟨blocks,transactions,blobs,proofs,events,contracts,states,outputs,updates⟩,
      fun h => ⟨h.blocks,h.transactions,h.blobs,h.proofs,h.events,h.contracts,h.states,h.outputs,
        h.updates⟩⟩

end Rows

end IndexerHandlerStore

section Dump
variable {fromTimestampMillis : Nat → Option DateTime} {now : DateTime}
  {store : IndexerHandlerStore} {db : Db}

theorem runStages_of_some {stage : Stage} {stages : List Stage} {next : Db}
    (h : stage.execute store db=some next) :
    runStages (stage::stages) store db=runStages stages (stage.drain store) next := by
  rw [runStages,h]

/-- A statement whose check passes. -/
theorem guarded {P : Prop} [Decidable P] {x : Option Db} (h : P) : (do guard P; x)=x := by
  rw [show (guard P : Option Unit)=some () from if_pos h]
  rfl

theorem insert_of_fresh {κ ρ : Type} [DecidableEq κ] {rows : List (κ × ρ)} {table : Table κ ρ}
    (h : Table.Fresh rows table) : table.insert rows=some (table.insertIgnoring rows) := if_pos h

theorem execute_insertingBlocks (hl : ∀ block ∈ store.blocks,block.hash.length=64)
    (hb : Table.Fresh (store.blockRows fromTimestampMillis now) db.blocks)
    (hh : Table.Fresh (store.blocks.map heightRow) db.heights) :
    (insertingBlocks fromTimestampMillis now).execute store db=some { db with
      blocks := db.blocks.insertIgnoring (store.blockRows fromTimestampMillis now)
      heights := db.heights.insertIgnoring (store.blocks.map heightRow) } := by
  refine (guarded hl).trans ?_
  rw [IndexerHandlerStore.blockRows] at hb
  rw [insert_of_fresh hb,insert_of_fresh hh]
  rfl

theorem execute_insertingContractStates
    (hs : ∀ state ∈ store.contractStates,(db.blocks state.blockHash).isSome=true)
    (hf : Table.Fresh store.stateRows db.contractState) :
    insertingContractStates.execute store db=some { db with
      contractState := db.contractState.insertIgnoring store.stateRows } := by
  refine (guarded hs).trans ?_
  rw [IndexerHandlerStore.stateRows] at hf
  rw [insert_of_fresh hf]
  rfl

theorem execute_insertingBlobProofOutputs
    (ho : ∀ output ∈ store.blobProofOutputs,
      (db.blobs (output.blobTx,output.blobIndex)).isSome=true ∧
        (db.transactions output.blobTx).isSome=true ∧
          (db.transactions output.proofTx).isSome=true)
    (hf : Table.Fresh (store.blobProofOutputs.map outputRow) db.blobProofOutputs) :
    insertingBlobProofOutputs.execute store db=some { db with
      blobProofOutputs := db.blobProofOutputs.insertIgnoring
        (store.blobProofOutputs.map outputRow) } := by
  refine (guarded ho).trans ?_
  rw [insert_of_fresh hf]
  rfl

/-- A store that meets the constraints is written as a whole and nothing is left in it. -/
theorem runStages_stages (h : store.Admits fromTimestampMillis now db) :
    runStages (stages fromTimestampMillis now) store db=
      (.default,some (store.written fromTimestampMillis now db)) := by
  have transactions := h.transactions
  have blobs := h.blobs
  have proofs := h.proofs
  have events := h.events
  have contracts := h.contracts
  have states := h.states
  have outputs := h.outputs
  simp only [IndexerHandlerStore.written,IndexerHandlerStore.inserted,Db.apply,
    Table.isSome_update] at transactions blobs proofs events contracts states outputs
  unfold stages
  rw [runStages_of_some (execute_insertingBlocks h.blocks.1 h.blocks.2.1 h.blocks.2.2),
    runStages_of_some (guarded transactions : insertingTransactions.execute _ _=_),
    runStages_of_some (guarded blobs : insertingBlobs.execute _ _=_),
    runStages_of_some (guarded proofs : insertingProofs.execute _ _=_),
    runStages_of_some (guarded events : insertingEvents.execute _ _=_),
    runStages_of_some (guarded contracts : insertingContracts.execute _ _=_)]
  refine (runStages_of_some (execute_insertingContractStates ?_ ?_)).trans ?_
  · exact states.1
  · exact states.2
  rw [runStages_of_some (rfl : deletingContracts.execute _ _=_)]
  refine (runStages_of_some (execute_insertingBlobProofOutputs ?_ ?_)).trans ?_
  · exact outputs.1
  · exact outputs.2
  rw [runStages_of_some (Db.foldlM_execute _ h.updates : executingUpdates.execute _ _=_)]
  rfl

/-- A dump of a store that meets the constraints. -/
theorem dumpStoreToDb_of_admits (hb : store.blocks≠[])
    (h : store.Admits fromTimestampMillis now db) :
    Indexer.dumpStoreToDb fromTimestampMillis now ⟨db,store⟩=
      ⟨store.written fromTimestampMillis now db,.default⟩ := by
  have some : ¬store.blocks.isEmpty=true := by simpa using hb
  unfold Indexer.dumpStoreToDb
  rw [if_neg some]
  simp only [runStages_stages h]

end Dump

end TruthSeeker.Indexing
