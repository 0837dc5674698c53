import TruthSeeker.Consensus.Network

namespace TruthSeeker

open Bytes

structure Contract where
  name : ContractName
  programId : ProgramId
  state : StateCommitment
  verifier : Verifier
  timeoutWindow : TimeoutWindow
  deriving DecidableEq

structure UnsettledBlobMetadata where
  blob : Blob
  /-- Each time we receive a proof, we add it to this list. -/
  possibleProofs : List (ProgramId × HyleOutput)

structure UnsettledBlobTransaction where
  identity : Identity
  parentDpHash : DataProposalHash
  hash : TxHash
  txContext : TxContext
  blobsHash : BlobsHashes
  blobs : Std.ExtTreeMap BlobIndex UnsettledBlobMetadata

structure HandledBlobProofOutput where
  proofTxHash : TxHash
  blobTxHash : TxHash
  blobIndex : BlobIndex
  contractName : ContractName
  hyleOutput : HyleOutput
  blobProofOutputIndex : Nat
  deriving DecidableEq

inductive TransactionStateEvent where
  | sequenced
  | error (message : String)
  | newProof (blobIndex : BlobIndex) (proofTxHash : TxHash) (programOutput : Bytes)
  | settleEvent (message : String)
  | settled
  | settledAsFailed
  | timedOut
  | droppedAsDuplicate
  deriving DecidableEq

structure RewardsClaim where
  blockHeights : List BlockHeight
  deriving DecidableEq

def RewardsClaim.layout : Borsh.Layout RewardsClaim (List BlockHeight) where
  fields c := c.blockHeights
  make blockHeights := ⟨blockHeights⟩
  make_fields _ := rfl

instance : Borsh RewardsClaim := RewardsClaim.layout.borsh

/-- The actions of the staking contract. -/
inductive StakingAction where
  | stake (amount : U128)
  | delegate (validator : ValidatorPublicKey)
  | distribute (claim : RewardsClaim)
  | depositForFees (holder : ValidatorPublicKey) (amount : U128)
  deriving DecidableEq

instance : Borsh StakingAction where
  ser | .stake amount => Borsh.tagged 0 amount
      | .delegate validator => Borsh.tagged 1 validator
      | .distribute claim => Borsh.tagged 2 claim
      | .depositForFees holder amount => Borsh.tagged 3 (holder,amount)
  de | 0::bs => Borsh.payload .stake bs
     | 1::bs => Borsh.payload .delegate bs
     | 2::bs => Borsh.payload .distribute bs
     | 3::bs => Borsh.payload (fun (p : ValidatorPublicKey × U128) => .depositForFees p.1 p.2) bs
     | _ => none

/-- What the node gathers while it handles the transactions of a block. -/
structure BlockUnderConstruction where
  parentHash : ConsensusProposalHash
  hash : ConsensusProposalHash
  blockHeight : BlockHeight
  blockTimestamp : TimestampMs
  dpParentHashes : Std.ExtTreeMap TxHash DataProposalHash
  laneIds : Std.ExtTreeMap TxHash LaneId
  successfulTxs : List TxHash
  failedTxs : List TxHash
  timedOutTxs : List TxHash
  droppedDuplicateTxs : List TxId
  blobProofOutputs : List HandledBlobProofOutput
  verifiedBlobs : List (TxHash × BlobIndex × Option Nat)
  newBoundedValidators : List ValidatorPublicKey
  stakingActions : List (Identity × StakingAction)
  registeredContracts :
    Std.ExtTreeMap ContractName (TxHash × RegisterContractEffect × Option Bytes)
  deletedContracts : Std.ExtTreeMap ContractName TxHash
  updatedStates : Std.ExtTreeMap ContractName StateCommitment
  updatedProgramIds : Std.ExtTreeMap ContractName ProgramId
  updatedTimeoutWindows : Std.ExtTreeMap ContractName TimeoutWindow
  transactionsEvents : Std.ExtTreeMap TxHash (List TransactionStateEvent)

structure Block extends BlockUnderConstruction where
  txs : List (TxId × Transaction)

namespace BlockUnderConstruction

variable (self : BlockUnderConstruction)

def pushEvents (txHash : TxHash) (events : List TransactionStateEvent) :
    BlockUnderConstruction :=
  { self with transactionsEvents :=
      self.transactionsEvents.insert txHash (self.transactionsEvents.getD txHash []++events) }

def pushEvent (txHash : TxHash) (event : TransactionStateEvent) : BlockUnderConstruction :=
  self.pushEvents txHash [event]

/-- Where the transaction was sequenced. -/
def locate (txHash : TxHash) (parentDpHash : DataProposalHash) (laneId : LaneId) :
    BlockUnderConstruction :=
  { self with
    dpParentHashes := self.dpParentHashes.insert txHash parentDpHash
    laneIds := self.laneIds.insert txHash laneId }

end BlockUnderConstruction

structure SignedBlock where
  dataProposals : List (LaneId × List DataProposal)
  consensusProposal : ConsensusProposal
  /-- This can be different for different validators. -/
  certificate : AggregateSignature

def HASH_DISPLAY_SIZE : Nat := 3

def ValidatorPublicKey.display (key : ValidatorPublicKey) : String :=
  hex (key.take HASH_DISPLAY_SIZE)

def HYLE_TESTNET_CHAIN_ID : U128 := 0x68796C655F746573746E6574

namespace SignedBlock

variable (self : SignedBlock)

def parentHash : ConsensusProposalHash := self.consensusProposal.parentHash

def height : BlockHeight := self.consensusProposal.slot

def hashed (sha3 : Bytes → H256) : ConsensusProposalHash := self.consensusProposal.hashed sha3

/-- The first data proposal of a lane takes the name of the lane for its parent. -/
def parentOf (laneId : LaneId) (dp : DataProposal) : DataProposalHash :=
  dp.parentDataProposalHash.getD (ValidatorPublicKey.display laneId)

def txsWithId (sha3 : Bytes → H256) (laneId : LaneId) (dp : DataProposal) :
    List (LaneId × TxId × Transaction) :=
  dp.txs.map fun tx => (laneId,⟨parentOf laneId dp,tx.hashed sha3⟩,tx)

def iterTxsWithId (sha3 : Bytes → H256) : List (LaneId × TxId × Transaction) :=
  self.dataProposals.flatMap fun lane => lane.2.flatMap (txsWithId sha3 lane.1)

end SignedBlock

end TruthSeeker
