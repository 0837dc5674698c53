import TruthSeeker.Model.Contract

namespace TruthSeeker

open Outcome Bytes

abbrev DataProposalHash := String
abbrev BlobHash := String
abbrev ProofData := Bytes
abbrev ProofDataHash := String

structure BlobTransaction where
  identity : Identity
  blobs : List Blob
  deriving DecidableEq

structure ProofTransaction where
  contractName : ContractName
  proof : ProofData
  deriving DecidableEq

/-- The claim that a proof attests one output. -/
structure BlobProofOutput where
  blobTxHash : TxHash
  originalProofHash : ProofDataHash
  hyleOutput : HyleOutput
  /-- Program ID used to verify the proof. -/
  programId : ProgramId
  deriving DecidableEq

structure VerifiedProofTransaction where
  contractName : ContractName
  /-- Kept only on the local lane for indexing purposes. -/
  proof : Option ProofData
  proofHash : ProofDataHash
  proofSize : UInt64
  provenBlobs : List BlobProofOutput
  isRecursive : Bool
  deriving DecidableEq

inductive TransactionData where
  | blob (tx : BlobTransaction)
  | proof (tx : ProofTransaction)
  | verifiedProof (tx : VerifiedProofTransaction)
  deriving DecidableEq

structure Transaction where
  version : UInt32
  transactionData : TransactionData
  deriving DecidableEq

structure TxId where
  parentHash : DataProposalHash
  txHash : TxHash
  deriving DecidableEq

/-- The transactions that one validator adds to its lane at once. -/
structure DataProposal where
  parentDataProposalHash : Option DataProposalHash
  txs : List Transaction
  deriving DecidableEq

abbrev BlobsHashes := Std.ExtTreeMap BlobIndex BlobHash

section
variable (sha3 : Bytes → H256)

def Blob.hashed (self : Blob) : BlobHash :=
  hex (sha3 (utf8 self.contractName++self.data)).toList

namespace BlobsHashes

def ofBlobs (blobs : IndexedBlobs) : BlobsHashes :=
  .ofList (blobs.map fun p => (p.1,p.2.hashed sha3))

def includesAll (self other : BlobsHashes) : Bool :=
  other.toList.all fun p => self[p.1]?=some p.2

end BlobsHashes

namespace RegisterContractEffect

def timeoutBytes : Option TimeoutWindow → Bytes
  | none => []
  | some .noTimeout => [0]
  | some (.timeout height) => u64Bytes height

def preimage (self : RegisterContractEffect) : Bytes :=
  utf8 self.verifier++self.programId++self.stateCommitment++utf8 self.contractName++
    timeoutBytes self.timeoutWindow

def hashed (self : RegisterContractEffect) : TxHash := hex (sha3 self.preimage).toList

end RegisterContractEffect

namespace HyleOutput

def effectBytes : OnchainEffect → Bytes
  | .registerContract effect => utf8 (effect.hashed sha3)
  | .deleteContract contractName => utf8 contractName

def blobBytes (entry : BlobIndex × Blob) : Bytes :=
  u64Bytes entry.1++utf8 entry.2.contractName++entry.2.data

/-- The digest leaves out the transaction hash, the context, the state reads and the number
of blobs. -/
def preimage (self : HyleOutput) : Bytes :=
  u32Bytes self.version++self.initialState++self.nextState++utf8 self.identity++
    u64Bytes self.index++self.blobs.flatMap blobBytes++
    [if self.success then 1 else 0]++u64Bytes (UInt64.ofNat self.onchainEffects.length)++
    self.onchainEffects.flatMap (effectBytes sha3)++self.programOutputs

def hashed (self : HyleOutput) : H256 := sha3 (self.preimage sha3)

end HyleOutput

namespace BlobProofOutput

def preimage (self : BlobProofOutput) : Bytes :=
  utf8 self.blobTxHash++utf8 self.originalProofHash++self.programId++
    (self.hyleOutput.hashed sha3).toList

def hashed (self : BlobProofOutput) : H256 := sha3 (self.preimage sha3)

end BlobProofOutput

namespace Transaction

def proofHashed (proof : ProofData) : ProofDataHash := hex (sha3 proof).toList

/-- The digest of a transaction depends on its kind, which is not part of it, and on neither
the version nor the stripped proof. -/
def preimage : TransactionData → Bytes
  | .blob tx => utf8 tx.identity++tx.blobs.flatMap fun blob => utf8 (blob.hashed sha3)
  | .proof tx => utf8 tx.contractName++utf8 (proofHashed sha3 tx.proof)
  | .verifiedProof tx =>
      utf8 tx.contractName++utf8 tx.proofHash++
        u64Bytes (UInt64.ofNat tx.provenBlobs.length)++
        tx.provenBlobs.flatMap fun output => (output.hashed sha3).toList

def hashed (self : Transaction) : TxHash := hex (sha3 (preimage sha3 self.transactionData)).toList

end Transaction

def BlobTransaction.hashed (self : BlobTransaction) : TxHash :=
  hex (sha3 (Transaction.preimage sha3 (.blob self))).toList

namespace DataProposal

def preimage (self : DataProposal) : Bytes :=
  utf8 (self.parentDataProposalHash.getD "")++self.txs.flatMap fun tx => utf8 (tx.hashed sha3)

def hashed (self : DataProposal) : DataProposalHash := hex (sha3 (self.preimage sha3)).toList

/-- Unverified proofs never reach this point. -/
def removeProof : Transaction → Outcome Transaction
  | ⟨version,.verifiedProof tx⟩ => .ok ⟨version,.verifiedProof { tx with proof := none }⟩
  | ⟨_,.proof _⟩ => Outcome.panic "internal error: entered unreachable code"
  | tx => .ok tx

def removeProofs (self : DataProposal) : Outcome DataProposal := do
  let txs ← self.txs.mapM removeProof
  return { self with txs := txs }

end DataProposal

end

end TruthSeeker
