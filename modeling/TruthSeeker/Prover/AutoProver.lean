import Std.Data.ExtTreeMap
import TruthSeeker.Framework.Handler
import TruthSeeker.Model.Transaction
import TruthSeeker.Sdk.Guest

namespace TruthSeeker.Prover

/-- A contract as its executor runs it, on the full state. Of a failed call only the error is
used. -/
structure TxExecutorHandler (Contract : Type) where
  handle : Contract → Calldata → Outcome (HyleOutput × Contract)
  buildCommitmentMetadata : Contract → Blob → Outcome Bytes
  mergeCommitmentMetadata : Contract → Bytes → Bytes → Outcome Bytes
  getStateCommitment : Contract → StateCommitment

/-- A transaction with the blobs that are to be proven. -/
abbrev ProvableTx := List BlobIndex × BlobTransaction × TxContext

/-- Of the unsettled and the proving transactions a batch reads nothing. -/
structure AutoProverStore (Contract : Type) where
  stateHistory : Std.ExtTreeMap TxHash Contract
  txChain : List TxHash
  batchId : UInt64

inductive AutoProverEvent (Contract : Type) where
  | failedTx (txHash : TxHash) (error : String)
  | successTx (txHash : TxHash) (contract : Contract)

/-- The batch as far as it is built. The outputs are those that the executor returned for the
calldatas, and the circuit is the contract that the first metadata were built from, with the
contract in which the executed blobs leave it: a failed one leaves it as it was. -/
structure Progress (Contract : Type) where
  commitmentMetadata : Option Bytes
  calldatas : List Calldata
  outputs : List HyleOutput
  circuit : Option (Contract × Contract)

/-- What the prover is asked to prove, and what it was built from. -/
structure ProofRequest (Contract : Type) where
  store : AutoProverStore Contract
  txs : List ProvableTx
  commitmentMetadata : Bytes
  calldatas : List Calldata
  outputs : List HyleOutput

/-- The store, the events on the bus and the proofs that were asked for. -/
structure AutoProver (Contract : Type) where
  store : AutoProverStore Contract
  sent : List (AutoProverEvent Contract)
  requests : List (ProofRequest Contract)

structure AutoProverCtx (Contract : Type) where
  sha3 : Bytes → H256
  defaultState : Contract
  maxTxsPerProof : Nat
  /-- What the bus answers when these events were sent. -/
  bus : List (AutoProverEvent Contract) → Outcome Unit
  fromUtf8Lossy : Bytes → String

namespace Progress
variable {Contract : Type}

def empty : Progress Contract := ⟨none,[],[],none⟩

def merged (self : Progress Contract) (contract : Contract) (metadata : Bytes) :
    Progress Contract :=
  { self with
    commitmentMetadata := some metadata
    circuit := some (self.circuit.getD (contract,contract)) }

def push (self : Progress Contract) (contract next : Contract) (calldata : Calldata)
    (output : HyleOutput) : Progress Contract :=
  { self with
    calldatas := self.calldatas++[calldata]
    outputs := self.outputs++[output]
    circuit := self.circuit.map fun circuit =>
      (circuit.1,if output.success then next else contract) }

end Progress

namespace AutoProverStore
variable {Contract : Type}

/-- The transaction in front of the first one with the hash. -/
def prevTx (self : AutoProverStore Contract) (tx : TxHash) : Option TxHash :=
  (self.txChain.findIdx? (·=tx)).bind fun i => if i>0 then self.txChain[i-1]? else none

def getStateOfPrevTx (self : AutoProverStore Contract) (defaultState : Contract) (tx : TxHash) :
    Option Contract :=
  match self.prevTx tx with
  | some prevTx => self.stateHistory[prevTx]?
  | none => some defaultState

def record (self : AutoProverStore Contract) (txHash : TxHash) (contract : Contract) :
    AutoProverStore Contract :=
  { self with stateHistory := self.stateHistory.insert txHash contract }

end AutoProverStore

variable {Contract : Type} (ctx : AutoProverCtx Contract) (H : TxExecutorHandler Contract)

namespace AutoProver

def calldata (tx : BlobTransaction) (txCtx : TxContext) (index : BlobIndex) : Calldata where
  txHash := tx.hashed ctx.sha3
  identity := tx.identity
  blobs := IndexedBlobs.ofBlobs tx.blobs
  txBlobCount := UInt64.ofNat tx.blobs.length
  index := index
  txCtx := some txCtx
  privateInput := []

def mergeMetadata (contract : Contract) (initial : Option Bytes) (metadata : Bytes) :
    Outcome Bytes :=
  match initial with
  | none => .ok metadata
  | some initial =>
      match H.mergeCommitmentMetadata contract initial metadata with
      | .error (.err _) => .error (.err "Merging commitment_metadata")
      | merged => merged

/-- One blob: the error that ends its transaction, if there is one. -/
def executeBlob (tx : BlobTransaction) (txCtx : TxContext) (index : BlobIndex)
    (contract : Contract) (progress : Progress Contract) :
    Outcome (Option String × Contract × Progress Contract) := do
  let blob ← Outcome.fromOption tx.blobs[index.toNat]?
    (.err s!"Failed to get blob {index} from tx {tx.hashed ctx.sha3}")
  match ← Outcome.caught (H.buildCommitmentMetadata contract blob) with
  | .error _ => return (some "Failed to build commitment metadata",contract,progress)
  | .ok metadata =>
      let metadata ← mergeMetadata H contract progress.commitmentMetadata metadata
      let progress := progress.merged contract metadata
      let calldata := calldata ctx tx txCtx index
      match ← Outcome.caught (H.handle contract calldata) with
      | .error e => return (some e,contract,progress)
      | .ok (output,next) =>
          let error := if output.success then none
            else some s!"Executed contract with error :{ctx.fromUtf8Lossy output.programOutputs}"
          return (error,next,progress.push contract next calldata output)

def executeBlobs (tx : BlobTransaction) (txCtx : TxContext) :
    List BlobIndex → Contract → Progress Contract →
      Outcome (Option String × Contract × Progress Contract)
  | [],contract,progress => .ok (none,contract,progress)
  | index::rest,contract,progress => do
      match ← executeBlob ctx H tx txCtx index contract progress with
      | (none,contract,progress) => executeBlobs tx txCtx rest contract progress
      | stopped => return stopped

def send (event : AutoProverEvent Contract) : Handler (AutoProver Contract) Unit := fun self =>
  match ctx.bus (self.sent++[event]) with
  | .ok _ => (.ok (),{ self with sent := self.sent++[event] })
  | .error fault => (.error fault,self)

def record (txHash : TxHash) (contract : Contract) : Handler (AutoProver Contract) Unit :=
  Handler.modify fun self => { self with store := self.store.record txHash contract }

/-- If the transaction failed, the state before it is stored for it. -/
def finishTx (txHash : TxHash) (initialContract contract : Contract) :
    Option String → Handler (AutoProver Contract) Unit
  | some e => do
      send ctx (.failedTx txHash e)
      record txHash initialContract
  | none => do
      send ctx (.successTx txHash contract)
      record txHash contract

/-- One transaction of a batch. -/
def executeTx (tx : ProvableTx) (progress : Progress Contract) :
    Handler (AutoProver Contract) (Progress Contract) := do
  let txHash := tx.2.1.hashed ctx.sha3
  let prev ← Handler.read fun self => self.store.getStateOfPrevTx ctx.defaultState txHash
  let initialContract ← Handler.lift (Outcome.fromOption prev
    (.err s!"Failed to get state of previous tx {txHash}"))
  let (error,contract,progress) ←
    Handler.lift (executeBlobs ctx H tx.2.1 tx.2.2 tx.1 initialContract progress)
  finishTx ctx txHash initialContract contract error
  return progress

def executeTxs : List ProvableTx → Progress Contract →
    Handler (AutoProver Contract) (Progress Contract)
  | [],progress => pure progress
  | tx::rest,progress => do
      let progress ← executeTx ctx H tx progress
      executeTxs rest progress

def nextBatch : Handler (AutoProver Contract) Unit :=
  Handler.modify fun self => { self with
    store := { self.store with batchId := self.store.batchId+1 } }

/-- Nothing is proven of a batch in which no blob was executed. -/
def request (store : AutoProverStore Contract) (txs : List ProvableTx)
    (progress : Progress Contract) : Handler (AutoProver Contract) Unit :=
  match progress.commitmentMetadata with
  | some commitmentMetadata =>
      Handler.whenever (progress.calldatas≠[]) (Handler.modify fun self => { self with
        requests := self.requests++
          [⟨store,txs,commitmentMetadata,progress.calldatas,progress.outputs⟩] })
  | none => pure ()

/-- The transactions of one batch, and the proof that is asked for. -/
def proveBatch (txs : List ProvableTx) : Handler (AutoProver Contract) Unit := do
  nextBatch
  let store ← Handler.read AutoProver.store
  let progress ← executeTxs ctx H txs .empty
  request store txs progress

def proveSupportedBlob (blobs : List ProvableTx) : Handler (AutoProver Contract) Unit :=
  let batch := blobs.take ctx.maxTxsPerProof
  let remaining := blobs.drop ctx.maxTxsPerProof
  if _h : batch=[] then pure ()
  else do
    proveBatch ctx H batch
    if remaining=[] then pure () else proveSupportedBlob remaining
termination_by blobs.length
decreasing_by
  have hne : blobs≠[] := by
    rintro rfl
    exact _h List.take_nil
  have hpos : 0<ctx.maxTxsPerProof := by
    apply Nat.pos_of_ne_zero
    intro zero
    apply _h
    show blobs.take ctx.maxTxsPerProof=[]
    rw [zero,List.take_zero]
  have hlen := List.length_pos_of_ne_nil hne
  show (blobs.drop ctx.maxTxsPerProof).length<blobs.length
  rw [List.length_drop]
  omega

end AutoProver

end TruthSeeker.Prover
