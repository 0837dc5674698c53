import Std.Data.ExtTreeSet
import TruthSeeker.NodeState.Settlement

namespace TruthSeeker

abbrev TxHashSet := Std.ExtTreeSet TxHash

abbrev Timeouts := Std.ExtTreeMap BlockHeight (List TxHash)

namespace Timeouts

/-- This does not check if the transaction is already set to time out. -/
def set (self : Timeouts) (tx : TxHash) (blockHeight timeoutWindow : BlockHeight) : Timeouts :=
  self.insert (blockHeight+timeoutWindow) (self.getD (blockHeight+timeoutWindow) []++[tx])

end Timeouts

structure NodeStateStore where
  timeouts : Timeouts
  currentHeight : BlockHeight
  contracts : Contracts
  unsettledTransactions : OrderedTxMap

def hyleContractDefinition : Contract := ⟨"hyle",[0,0,0,0],[],"hyle",.noTimeout⟩

namespace NodeStateStore

def default : NodeStateStore :=
  ⟨∅,0,(∅ : Contracts).insert "hyle" hyleContractDefinition,OrderedTxMap.empty⟩

end NodeStateStore

def TimeoutWindow.min : TimeoutWindow → TimeoutWindow → TimeoutWindow
  | .noTimeout,w => w
  | w,.noTimeout => w
  | .timeout a,.timeout b => .timeout (if a≤b then a else b)

/-- How a new blob transaction is handled. -/
inductive BlobTxHandled where
  | shouldSettle (txHash : TxHash)
  | duplicate
  | ok

def BlobTransaction.validateIdentity (self : BlobTransaction) : Except String Unit :=
  match rsplitOnce '@' self.identity with
  | none => .error (s!"Transaction identity {self.identity} is not correctly formed. "++
      "It should be in the form <id>@<contract_id_name>")
  | some (identity,identityContractName) =>
      if identity="" ∨ identityContractName="" then
        .error (s!"Transaction identity {identity}@{identityContractName} "++
          "must not have empty parts")
      else if ¬self.blobs.any fun blob => blob.contractName=identityContractName then
        .error s!"Can't find blob that proves the identity on contract '{identityContractName}'"
      else .ok ()

namespace NodeState

/-- The state of the node and the block that it works on. -/
structure Work where
  store : NodeStateStore
  block : BlockUnderConstruction

namespace Work

variable (self : Work)

def pending : OrderedTxMap := self.store.unsettledTransactions

def setPending (pending : OrderedTxMap) : Work :=
  ⟨{ self.store with unsettledTransactions := pending },self.block⟩

def setBlock (block : BlockUnderConstruction) : Work := ⟨self.store,block⟩

def pushEvent (txHash : TxHash) (event : TransactionStateEvent) : Work :=
  self.setBlock (self.block.pushEvent txHash event)

/-- Where a pending transaction was sequenced. -/
def locate (tx : UnsettledBlobTransaction) : Work :=
  self.setBlock (self.block.locate tx.hash tx.parentDpHash tx.txContext.laneId)

@[simp] theorem pending_setPending (pending : OrderedTxMap) :
    (self.setPending pending).pending=pending := rfl

@[simp] theorem pending_setBlock (block : BlockUnderConstruction) :
    (self.setBlock block).pending=self.pending := rfl

@[simp] theorem pending_pushEvent (txHash : TxHash) (event : TransactionStateEvent) :
    (self.pushEvent txHash event).pending=self.pending := rfl

@[simp] theorem pending_locate (tx : UnsettledBlobTransaction) :
    (self.locate tx).pending=self.pending := rfl

end Work

variable (env : Environment)

section Store
variable (self : NodeStateStore)

/-- Up to some height, a contract without timeout cancels those of the blobs before it. -/
def getTxTimeoutWindow (blobs : List Blob) : TimeoutWindow :=
  let windows := blobs.filterMap fun blob =>
    (self.contracts[blob.contractName]?).map Contract.timeoutWindow
  if self.currentHeight>445000 then windows.foldl TimeoutWindow.min .noTimeout
  else windows.foldl (fun timeout contractTimeout =>
    match timeout,contractTimeout with
    | .noTimeout,contractTimeout => contractTimeout
    | .timeout a,.timeout b => .timeout (if a≤b then a else b)
    | _,_ => .noTimeout) .noTimeout

/-- The next transaction to settle gets a timeout. -/
def scheduleTimeout (txHash : TxHash) (blobs : List Blob) : NodeStateStore :=
  if self.unsettledTransactions.isNextToSettle txHash then
    match getTxTimeoutWindow self blobs with
    | .timeout window =>
        { self with timeouts := Timeouts.set self.timeouts txHash self.currentHeight window }
    | .noTimeout => self
  else self

def rescheduleTimeout (txHash : TxHash) : NodeStateStore :=
  match self.unsettledTransactions.get txHash with
  | some tx => scheduleTimeout self txHash (tx.blobValues.map UnsettledBlobMetadata.blob)
  | none => self

def nativeVerifier (blob : Blob) : Option NativeVerifiers :=
  (self.contracts[blob.contractName]?).bind fun c => NativeVerifiers.ofVerifier c.verifier

/-- A blob that a native verifier accepts needs no settlement; one that it rejects has the
failed output as its proof. -/
def unsettledBlob (tx : BlobTransaction) (entry : BlobIndex × Blob) :
    Option (BlobIndex × UnsettledBlobMetadata) :=
  match nativeVerifier self entry.2 with
  | none => some (entry.1,⟨entry.2,[]⟩)
  | some verifier =>
      let hyleOutput := Native.verify env (tx.hashed env.sha3) entry.1 tx.blobs entry.2 verifier
      if hyleOutput.success then none
      else some (entry.1,⟨entry.2,[(verifier.programId,hyleOutput)]⟩)

def unsettledBlobTransaction (parentDpHash : DataProposalHash) (tx : BlobTransaction)
    (txContext : TxContext) : UnsettledBlobTransaction where
  identity := tx.identity
  parentDpHash := parentDpHash
  hash := tx.hashed env.sha3
  txContext := txContext
  blobsHash := BlobsHashes.ofBlobs env.sha3 (IndexedBlobs.ofBlobs tx.blobs)
  blobs := .ofList ((IndexedBlobs.ofBlobs tx.blobs).filterMap (unsettledBlob env self tx))

/-- The static checks on a blob transaction. -/
def checkBlobTx (tx : BlobTransaction) : Except String Unit :=
  match tx.validateIdentity with
  | .error e => .error e
  | .ok () =>
  if tx.blobs=[] then .error "Blob Transaction must have at least one blob"
  else
    match HyleTld.validateHyleContractBlobs env tx with
    | .error e => .error s!"Blob Transaction contains invalid blobs for 'hyle' contract: {e}"
    | .ok () =>
        let unknown := tx.blobs.filter fun blob => ¬self.contracts.contains blob.contractName
        if unknown=[] then .ok ()
        else .error ("Blob Transaction contains blobs for unknown contracts: "++
          String.intercalate ", " (unknown.map Blob.contractName))

/-- Whether all blobs are for native verifiers or the contract `hyle`. -/
def needsNoProof (tx : BlobTransaction) : Bool :=
  tx.blobs.all fun blob => (nativeVerifier self blob).isSome || blob.contractName="hyle"

def handleBlobTx (parentDpHash : DataProposalHash) (tx : BlobTransaction)
    (txContext : TxContext) : Except String (BlobTxHandled × NodeStateStore) :=
  match checkBlobTx env self tx with
  | .error e => .error e
  | .ok () =>
  match self.unsettledTransactions.add
      (unsettledBlobTransaction env self parentDpHash tx txContext) with
  | none => .ok (.duplicate,self)
  | some (pending,isNext) =>
      let txHash := tx.hashed env.sha3
      let store := scheduleTimeout { self with unsettledTransactions := pending } txHash tx.blobs
      .ok (if isNext && needsNoProof self tx then .shouldSettle txHash else .ok,store)

end Store

section Proof

/-- The transaction of the blob is located in the block even if its proof is refused. -/
def handleBlobProof (proofTxHash : TxHash) (work : Work) (blobProofData : BlobProofOutput) :
    Work × Except String (Option TxHash) :=
  let hyleOutput := blobProofData.hyleOutput
  let blobTxHash := blobProofData.blobTxHash
  match work.pending.getForSettlement blobTxHash with
  | none => (work,.error s!"BlobTx {blobTxHash} not found")
  | some (unsettledTx,shouldSettleTx) =>
  match verifyHyleOutput env unsettledTx hyleOutput with
  | .error e => (work.locate unsettledTx,.error e)
  | .ok () =>
  match unsettledTx.blobs[hyleOutput.index]? with
  | none => (work.locate unsettledTx,
      .error s!"blob at index {hyleOutput.index} not found in blob TX {blobTxHash}")
  | some metadata =>
      let block := ((work.locate unsettledTx).pushEvent blobTxHash
        (.newProof hyleOutput.index proofTxHash hyleOutput.programOutputs)).block
      let handled : HandledBlobProofOutput :=
        ⟨proofTxHash,unsettledTx.hash,hyleOutput.index,metadata.blob.contractName,hyleOutput,
          metadata.possibleProofs.length⟩
      let block := { block with blobProofOutputs := block.blobProofOutputs++[handled] }
      ((work.setPending (work.pending.pushProof blobTxHash hyleOutput.index
          (blobProofData.programId,hyleOutput))).setBlock block,
        .ok (if shouldSettleTx then some unsettledTx.hash else none))

/-- The proven blobs of a transaction in order, with the transactions to try and settle. -/
def handleProvenBlobs (txId : TxId) (state : Work × TxHashSet)
    (blobProofData : BlobProofOutput) : Work × TxHashSet :=
  let (work,result) := handleBlobProof env txId.txHash state.1 blobProofData
  match result with
  | .ok (some txHash) => (work,state.2.insert txHash)
  | .ok none => (work,state.2)
  | .error err =>
      (work.pushEvent txId.txHash (.error (
        s!"Failed to handle blob #{blobProofData.hyleOutput.index} in verified proof "++
        s!"transaction {txId.parentHash}/{txId.txHash}: {err}")),state.2)

end Proof

section Settled

/-- The outputs that the blobs of a settled transaction force upon others. The contract that
a blob is for does not matter. -/
def txsToNuke (settledTx : UnsettledBlobTransaction) : Std.ExtTreeMap TxHash (List HyleOutput) :=
  settledTx.blobValues.foldl (fun nukes metadata =>
    match BlobData.parse NukeTxAction metadata.blob.data with
    | some nuke => nuke.txs.toList.foldl (fun nukes p => nukes.insert p.1 p.2) nukes
    | none => nukes) ∅

def recordBlob (bth : TxHash) (identity : Identity) (indices : List Nat)
    (block : BlockUnderConstruction) (entry : BlobIndex × UnsettledBlobMetadata) :
    BlockUnderConstruction :=
  let block := { block with verifiedBlobs :=
    block.verifiedBlobs++[(bth,entry.1,indices[entry.1.toNat]?)] }
  if entry.2.blob.contractName="staking" then
    match BlobData.parse StakingAction entry.2.blob.data with
    | some action =>
        { block with stakingActions := block.stakingActions++[(identity,action)] }
    | none => block
  else block

/-- A deleted contract takes the transactions in its queue with it. -/
def deleteContract (bth : TxHash) (work : Work) (contractName : ContractName) : Work :=
  let (removed,pending) := work.pending.removeAll contractName
  let work := removed.foldl (fun work tx => (work.pushEvent tx.hash .timedOut).locate tx)
    (work.setPending pending)
  ⟨{ work.store with contracts := work.store.contracts.erase contractName },
    { work.block with
      registeredContracts := work.block.registeredContracts.erase contractName
      deletedContracts := work.block.deletedContracts.insert contractName bth }⟩

def registeredMetadata (sideEffects : List SideEffect) : Option Bytes :=
  (sideEffects.findSome? fun
    | .register metadata => some metadata
    | _ => none).getD none

/-- The block notes a contract that is new, and the fields that have changed. -/
def noteContract (bth : TxHash) (isNew : Bool) (contractName : ContractName)
    (contract : Contract) (fields : ModifiedContractFields) (sideEffects : List SideEffect)
    (block : BlockUnderConstruction) : BlockUnderConstruction :=
  let block :=
    if isNew then { block with
      registeredContracts := block.registeredContracts.insert contractName
        (bth,⟨contract.verifier,contract.programId,contract.state,contractName,
          some contract.timeoutWindow⟩,registeredMetadata sideEffects)
      deletedContracts := block.deletedContracts.erase contractName }
    else block
  let block :=
    if fields.state then
      { block with updatedStates := block.updatedStates.insert contract.name contract.state }
    else block
  let block :=
    if fields.programId then
      { block with updatedProgramIds :=
        block.updatedProgramIds.insert contract.name contract.programId }
    else block
  if fields.timeoutWindow then
    { block with updatedTimeoutWindows :=
      block.updatedTimeoutWindows.insert contract.name contract.timeoutWindow }
  else block

def updateContract (bth : TxHash) (work : Work) (contractName : ContractName)
    (contract : Contract) (fields : ModifiedContractFields) (sideEffects : List SideEffect) :
    Work :=
  ⟨{ work.store with contracts := work.store.contracts.insert contract.name contract },
    noteContract bth (¬work.store.contracts.contains contractName) contractName contract fields
      sideEffects work.block⟩

def applyContractChange (bth : TxHash) (work : Work) :
    ContractName × ModifiedContractData → Work
  | (contractName,none,_,_) => deleteContract bth work contractName
  | (contractName,some contract,fields,sideEffects) =>
      updateContract bth work contractName contract fields sideEffects

/-- The program of the contract of the blob, and the output that is forced upon it. A failed
output takes the current state for its initial and next states. -/
def nukeUpdate (store : NodeStateStore) (tx : UnsettledBlobTransaction)
    (hyleOutput : HyleOutput) : Option (ProgramId × HyleOutput) := do
  let metadata ← tx.blobs[hyleOutput.index]?
  let contract ← store.contracts[metadata.blob.contractName]?
  if hyleOutput.success then return (contract.programId,hyleOutput)
  else return (contract.programId,
    { hyleOutput with
      initialState := contract.state
      nextState := contract.state })

def nukeUpdates (store : NodeStateStore) (nukes : Std.ExtTreeMap TxHash (List HyleOutput)) :
    List (TxHash × ProgramId × HyleOutput) :=
  nukes.toList.flatMap fun p =>
    match store.unsettledTransactions.get p.1 with
    | some tx => (p.2.filterMap (nukeUpdate store tx)).map fun update => (p.1,update)
    | none => []

/-- A forced output becomes a proof like any other. -/
def applyNuke (bth : TxHash) (state : Work × TxHashSet)
    (update : TxHash × ProgramId × HyleOutput) : Work × TxHashSet :=
  let index := update.2.2.index
  match (state.1.pending.get update.1).bind fun tx => tx.blobs[index]? with
  | none => state
  | some _ =>
      ((state.1.setPending (state.1.pending.pushProof update.1 index update.2)).pushEvent
          update.1 (.newProof index bth update.2.2.programOutputs),
        state.2.insert update.1)

/-- The next transactions for the contracts of the blobs. -/
def nextTxs (pending : OrderedTxMap) (tx : UnsettledBlobTransaction) : TxHashSet :=
  .ofList (tx.blobValues.filterMap fun metadata =>
    pending.getNextUnsettledTx metadata.blob.contractName)

def settleAsFailed (bth : TxHash) (work : Work) : Work :=
  let block := (work.pushEvent bth .settledAsFailed).block
  work.setBlock { block with failedTxs := block.failedTxs++[bth] }

/-- The effects on the contracts, with what the block records of the blobs. -/
def settleContracts (bth : TxHash) (settledTx : UnsettledBlobTransaction)
    (result : SettlementResult) (work : Work) : Work :=
  let block := settledTx.blobs.toList.foldl
    (recordBlob bth settledTx.identity result.blobProofOutputIndices)
    (work.pushEvent bth .settled).block
  result.contractChanges.toList.foldl (applyContractChange bth) (work.setBlock block)

def forceOutputs (bth : TxHash) (settledTx : UnsettledBlobTransaction) (work : Work) :
    Work × TxHashSet :=
  (nukeUpdates work.store (txsToNuke settledTx)).foldl (applyNuke bth) (work,∅)

def succeed (bth : TxHash) (work : Work) : Work :=
  work.setBlock { work.block with successfulTxs := work.block.successfulTxs++[bth] }

/-- Handle a settled transaction. Returns the transactions to try and settle next: the next
ones for each contract, and those upon which outputs were forced. -/
def onSettledBlobTx (bth : TxHash) (settledTx : UnsettledBlobTransaction) (work : Work) :
    Except Unit SettlementResult → Work × TxHashSet
  | .error () => (settleAsFailed bth work,nextTxs work.pending settledTx)
  | .ok result =>
      let (settled,forcedTxs) :=
        forceOutputs bth settledTx (settleContracts bth settledTx result work)
      (succeed bth settled,nextTxs work.pending settledTx ∪ forcedTxs)

end Settled

section Settle

/-- Whether a native verifier refused one of the blobs. -/
def nativeFailure (tx : UnsettledBlobTransaction) : Bool :=
  tx.blobValues.any fun metadata =>
    NATIVE_VERIFIERS_CONTRACT_LIST.contains metadata.blob.contractName &&
      metadata.possibleProofs.any fun proof => !proof.2.success

def settlement (contracts : Contracts) (tx : UnsettledBlobTransaction) : Attempt :=
  if nativeFailure tx then ([],some (.error ()))
  else settleBlobsRecursively env contracts ∅ tx.blobValues []

/-- The result of a transaction, with nothing but events and a message if it cannot be
settled. A failed transaction need not be the next one. -/
def tryToSettleBlobTx (store : NodeStateStore) (bth : TxHash) (tx : UnsettledBlobTransaction) :
    List TransactionStateEvent × Except String (Except Unit SettlementResult) :=
  if ¬tx.blobValues.all fun metadata => store.contracts.contains metadata.blob.contractName then
    ([],.error "Cannot settle TX: some blob contracts are not registered")
  else
    match settlement env store.contracts tx with
    | (events,none) => (events,.error s!"Tx: {tx.hash} is not ready to settle.")
    | (events,some (.error ())) => (events,.ok (.error ()))
    | (events,some (.ok result)) =>
        if store.unsettledTransactions.isNextToSettle bth then (events,.ok (.ok result))
        else (events,.error s!"Transaction {bth} is not next to settle, skipping.")

def unsettlable (bth : TxHash) (work : Work) (e : String) :
    Work × Option TxHashSet :=
  (work.pushEvent bth (.settleEvent s!"Failed to settle: {e}"),none)

/-- One round of settlement: the transactions to try next if the transaction was settled. -/
def settleTx (bth : TxHash) (work : Work) : Work × Option TxHashSet :=
  match work.pending.remove bth with
  | none =>
      let located := work.block.locate bth (work.block.dpParentHashes.getD bth "")
        (work.block.laneIds.getD bth [])
      unsettlable bth (work.setBlock located)
        s!"Unsettled transaction not found in the state: {env.debug.txHash bth}"
  | some (tx,rest) =>
      let attempt := tryToSettleBlobTx env work.store bth tx
      let work := work.setBlock ((work.locate tx).block.pushEvents bth attempt.1)
      match attempt.2 with
      | .error e => unsettlable bth work e
      | .ok result =>
          let (work,next) := onSettledBlobTx bth tx (work.setPending rest) result
          (work,some next)

/-- The smallest hash is tried first. -/
def settleLoop : Nat → Work → TxHashSet → TxHashSet →
    Work × TxHashSet
  | 0,work,_,failed => (work,failed)
  | fuel+1,work,toTry,failed =>
      match toTry.toList.head? with
      | none => (work,failed)
      | some bth =>
          let (work,next) := settleTx env bth work
          match next with
          | none => settleLoop fuel work (toTry.erase bth) (failed.insert bth)
          | some next => settleLoop fuel work (toTry.erase bth ∪ next) failed

/-- The number of rounds that settlement can take: each settled transaction leaves the map,
and only transactions in the map are tried again. -/
def settleBound (work : Work) (toTry : TxHashSet) : Nat :=
  toTry.size+work.pending.map.size^2

/-- Settle all transactions that are ready. Returns those that were tried in vain. -/
def settleTxsUntilDone (work : Work) (toTry : TxHashSet) :
    Work × TxHashSet :=
  settleLoop env (settleBound work toTry) work toTry ∅

/-- Those that could not be settled get a timeout. -/
def settleAndReschedule (work : Work) (toTry : TxHashSet) : Work :=
  let (work,unsettlableTxs) := settleTxsUntilDone env work toTry
  ⟨unsettlableTxs.toList.foldl rescheduleTimeout work.store,work.block⟩

end Settle

section Timeout

/-- Removes one transaction that has timed out, if it is still there. -/
def clearTimeout (state : Work × List TxHash) (txHash : TxHash) : Work × List TxHash :=
  match state.1.pending.remove txHash with
  | none => state
  | some (tx,rest) =>
      let work := ((state.1.setPending rest).pushEvent tx.hash .timedOut).locate tx
      (settleAndReschedule env work (nextTxs rest tx),state.2++[txHash])

def clearTimeouts (work : Work) : Work :=
  let height := work.block.blockHeight
  let timeouts := work.store.timeouts
  let started : Work := ⟨{ work.store with timeouts := timeouts.erase height },work.block⟩
  let (work,timedOut) := (timeouts.getD height []).foldl (clearTimeout env) (started,[])
  work.setBlock { work.block with timedOutTxs := timedOut }

end Timeout

section Block

def startBlock (signedBlock : SignedBlock) : BlockUnderConstruction where
  parentHash := signedBlock.parentHash
  hash := signedBlock.hashed env.sha3
  blockHeight := signedBlock.height
  blockTimestamp := signedBlock.consensusProposal.timestamp
  dpParentHashes := ∅
  laneIds := ∅
  successfulTxs := []
  failedTxs := []
  timedOutTxs := []
  droppedDuplicateTxs := []
  blobProofOutputs := []
  verifiedBlobs := []
  newBoundedValidators := signedBlock.consensusProposal.stakingActions.filterMap fun
    | .bond candidate => some candidate.signature.validator
    | .payFeesForDaDi _ _ => none
  stakingActions := []
  registeredContracts := ∅
  deletedContracts := ∅
  updatedStates := ∅
  updatedProgramIds := ∅
  updatedTimeoutWindows := ∅
  transactionsEvents := ∅

def txContext (laneId : LaneId) (block : BlockUnderConstruction) : TxContext :=
  ⟨laneId,block.hash,block.blockHeight,block.blockTimestamp,HYLE_TESTNET_CHAIN_ID⟩

def handleTransaction (laneId : LaneId) (txId : TxId) (work : Work) : TransactionData → Work
  | .blob blobTransaction =>
      match handleBlobTx env work.store txId.parentHash blobTransaction
          (txContext laneId work.block) with
      | .ok (.shouldSettle txHash,store) =>
          settleAndReschedule env ⟨store,work.block⟩ (.ofList [txHash])
      | .ok (.duplicate,store) =>
          ⟨store,{ work.block.pushEvent txId.txHash .droppedAsDuplicate with
            droppedDuplicateTxs := work.block.droppedDuplicateTxs++[txId] }⟩
      | .ok (.ok,store) => ⟨store,work.block.pushEvent txId.txHash .sequenced⟩
      | .error e =>
          let err := "Failed to handle blob transaction: "++env.debug.error e
          work.setBlock { work.block.pushEvent txId.txHash (.error err) with
            failedTxs := work.block.failedTxs++[txId.txHash] }
  | .proof _ => work
  | .verifiedProof proofTx =>
      let (work,toTry) := proofTx.provenBlobs.foldl (handleProvenBlobs env txId) (work,∅)
      settleAndReschedule env work toTry

def handleTx (work : Work) (entry : LaneId × TxId × Transaction) : Work :=
  let (laneId,txId,tx) := entry
  handleTransaction env laneId txId
    (work.setBlock (work.block.locate txId.txHash txId.parentHash laneId)) tx.transactionData

def beginBlock (store : NodeStateStore) (signedBlock : SignedBlock) : Work :=
  ⟨{ store with currentHeight := signedBlock.height },startBlock env signedBlock⟩

/-- The blocks must come in order; any other block leaves the state as it is. -/
def handleSignedBlock (store : NodeStateStore) (signedBlock : SignedBlock) :
    NodeStateStore × Except String Block :=
  if store.currentHeight+1≠signedBlock.height ∧
      ¬(store.currentHeight=0 ∧ signedBlock.height=0) then
    (store,.error (s!"Handling signed block of height {signedBlock.height} "++
      s!"while current height is {store.currentHeight}"))
  else
    let entries := signedBlock.iterTxsWithId env.sha3
    let work := entries.foldl (handleTx env) (clearTimeouts env (beginBlock env store signedBlock))
    (work.store,.ok { work.block with txs := entries.map Prod.snd })

/-- The state after a sequence of blocks. -/
def handleSignedBlocks (store : NodeStateStore) (signedBlocks : List SignedBlock) :
    NodeStateStore :=
  signedBlocks.foldl (fun store signedBlock => (handleSignedBlock env store signedBlock).1) store

end Block

end NodeState

end TruthSeeker
