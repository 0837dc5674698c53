import TruthSeeker.Framework.Borsh
import TruthSeeker.Framework.Outcome

namespace TruthSeeker

abbrev ContractName := String
abbrev Identity := String
abbrev TxHash := String
abbrev ConsensusProposalHash := String
abbrev BlockHash := ConsensusProposalHash
abbrev ValidatorPublicKey := Bytes
abbrev LaneId := ValidatorPublicKey
abbrev BlockHeight := UInt64
abbrev BlobIndex := UInt64
abbrev TimestampMs := U128
abbrev StateCommitment := Bytes
abbrev BlobData := Bytes
abbrev ProgramId := Bytes
abbrev Verifier := String
abbrev H256 := ByteVec 32

instance instTransOrdH256 : Std.TransOrd H256 := inferInstance

/-- An action for one contract, as the transaction carries it. -/
structure Blob where
  contractName : ContractName
  data : BlobData
  deriving DecidableEq

def Blob.layout : Borsh.Layout Blob (ContractName × BlobData) where
  fields b := (b.contractName,b.data)
  make := fun (contractName,data) => ⟨contractName,data⟩
  make_fields _ := rfl

instance : Borsh Blob := Blob.layout.borsh
instance : LawfulBorsh Blob := Blob.layout.lawful

abbrev IndexedBlobs := List (BlobIndex × Blob)

namespace IndexedBlobs

def get (blobs : IndexedBlobs) (index : BlobIndex) : Option Blob :=
  (blobs.find? (fun p => p.1=index)).map Prod.snd

/-- The blobs of a transaction under their positions. -/
def ofBlobs (blobs : List Blob) : IndexedBlobs :=
  blobs.zipIdx.map (fun p => (UInt64.ofNat p.2,p.1))

end IndexedBlobs

structure TxContext where
  laneId : LaneId
  blockHash : BlockHash
  blockHeight : BlockHeight
  timestamp : TimestampMs
  chainId : U128
  deriving DecidableEq

def TxContext.layout :
    Borsh.Layout TxContext (LaneId × BlockHash × BlockHeight × TimestampMs × U128) where
  fields c := (c.laneId,c.blockHash,c.blockHeight,c.timestamp,c.chainId)
  make := fun (laneId,blockHash,blockHeight,timestamp,chainId) =>
    ⟨laneId,blockHash,blockHeight,timestamp,chainId⟩
  make_fields _ := rfl

instance : Borsh TxContext := TxContext.layout.borsh
instance : LawfulBorsh TxContext := TxContext.layout.lawful

/-- What the backend gives a contract to run one blob on its state. -/
structure Calldata where
  txHash : TxHash
  identity : Identity
  blobs : IndexedBlobs
  txBlobCount : UInt64
  index : BlobIndex
  txCtx : Option TxContext
  privateInput : Bytes

structure StructuredBlobData (Action : Type) where
  caller : Option BlobIndex
  callees : Option (List BlobIndex)
  parameters : Action

def StructuredBlobData.layout (Action : Type) : Borsh.Layout (StructuredBlobData Action)
    (Option BlobIndex × Option (List BlobIndex) × Action) where
  fields s := (s.caller,s.callees,s.parameters)
  make := fun (caller,callees,parameters) => ⟨caller,callees,parameters⟩
  make_fields _ := rfl

instance {Action : Type} [Borsh Action] : Borsh (StructuredBlobData Action) :=
  (StructuredBlobData.layout Action).borsh
instance {Action : Type} [Borsh Action] [LawfulBorsh Action] :
    LawfulBorsh (StructuredBlobData Action) := (StructuredBlobData.layout Action).lawful

/-- Parameters that were not parsed: reading them drops the rest of the input. -/
inductive DropEndOfReader where
  | dropped
  deriving DecidableEq

instance : Borsh DropEndOfReader where
  ser _ := some []
  de _ := some (.dropped,[])

structure StructuredBlob (Action : Type) where
  contractName : ContractName
  data : StructuredBlobData Action

/-- The optional lifetime of the transactions of a contract, in blocks. -/
inductive TimeoutWindow where
  | noTimeout
  | timeout (height : BlockHeight)
  deriving DecidableEq

instance : Borsh TimeoutWindow where
  ser | .noTimeout => some [0]
      | .timeout h => Borsh.tagged 1 h
  de | 0::bs => some (.noTimeout,bs)
     | 1::bs => Borsh.payload .timeout bs
     | _ => none

instance : LawfulBorsh TimeoutWindow where
  de_ser := by
    intro w bs h rest
    cases w with
    | noTimeout =>
      obtain rfl : [0]=bs := by simpa [Borsh.ser] using h
      rfl
    | timeout height =>
      obtain ⟨body,rfl,hb⟩ := Borsh.tagged_eq_some h
      exact Borsh.payload_ser TimeoutWindow.timeout hb rest

namespace TimeoutWindow

def default : TimeoutWindow := .timeout 100

end TimeoutWindow

structure RegisterContractEffect where
  verifier : Verifier
  programId : ProgramId
  stateCommitment : StateCommitment
  contractName : ContractName
  timeoutWindow : Option TimeoutWindow
  deriving DecidableEq

def RegisterContractEffect.layout : Borsh.Layout RegisterContractEffect
    (Verifier × ProgramId × StateCommitment × ContractName × Option TimeoutWindow) where
  fields e := (e.verifier,e.programId,e.stateCommitment,e.contractName,e.timeoutWindow)
  make := fun (verifier,programId,stateCommitment,contractName,timeoutWindow) =>
    ⟨verifier,programId,stateCommitment,contractName,timeoutWindow⟩
  make_fields _ := rfl

instance : Borsh RegisterContractEffect := RegisterContractEffect.layout.borsh
instance : LawfulBorsh RegisterContractEffect := RegisterContractEffect.layout.lawful

inductive OnchainEffect where
  | registerContract (effect : RegisterContractEffect)
  | deleteContract (contractName : ContractName)
  deriving DecidableEq

instance : Borsh OnchainEffect where
  ser | .registerContract e => Borsh.tagged 0 e
      | .deleteContract c => Borsh.tagged 1 c
  de | 0::bs => Borsh.payload .registerContract bs
     | 1::bs => Borsh.payload .deleteContract bs
     | _ => none

instance : LawfulBorsh OnchainEffect where
  de_ser := by
    intro e bs h rest
    cases e with
    | registerContract e =>
      obtain ⟨body,rfl,hb⟩ := Borsh.tagged_eq_some h
      exact Borsh.payload_ser OnchainEffect.registerContract hb rest
    | deleteContract c =>
      obtain ⟨body,rfl,hb⟩ := Borsh.tagged_eq_some h
      exact Borsh.payload_ser OnchainEffect.deleteContract hb rest

/-- The output that a proof of one blob commits to. -/
structure HyleOutput where
  version : UInt32
  initialState : StateCommitment
  nextState : StateCommitment
  identity : Identity
  index : BlobIndex
  blobs : IndexedBlobs
  txBlobCount : UInt64
  txHash : TxHash
  success : Bool
  stateReads : List (ContractName × StateCommitment)
  txCtx : Option TxContext
  onchainEffects : List OnchainEffect
  programOutputs : Bytes
  deriving DecidableEq

def HyleOutput.layout : Borsh.Layout HyleOutput (UInt32 × StateCommitment × StateCommitment ×
    Identity × BlobIndex × IndexedBlobs × UInt64 × TxHash × Bool ×
    List (ContractName × StateCommitment) × Option TxContext × List OnchainEffect × Bytes) where
  fields o := (o.version,o.initialState,o.nextState,o.identity,o.index,o.blobs,o.txBlobCount,
    o.txHash,o.success,o.stateReads,o.txCtx,o.onchainEffects,o.programOutputs)
  make := fun (version,initialState,nextState,identity,index,blobs,txBlobCount,txHash,success,
      stateReads,txCtx,onchainEffects,programOutputs) =>
    ⟨version,initialState,nextState,identity,index,blobs,txBlobCount,txHash,success,
      stateReads,txCtx,onchainEffects,programOutputs⟩
  make_fields _ := rfl

instance : Borsh HyleOutput := HyleOutput.layout.borsh
instance : LawfulBorsh HyleOutput := HyleOutput.layout.lawful

end TruthSeeker
