import TruthSeeker.Crypto.Blst
import TruthSeeker.Model.Transaction
import TruthSeeker.Staking.Fees

namespace TruthSeeker

abbrev Slot := UInt64
abbrev View := UInt64
abbrev PoDA := AggregateSignature
abbrev Cut := List (LaneId × DataProposalHash × LaneBytesSize × PoDA)

structure ValidatorCandidacy where
  peerAddress : String
  deriving DecidableEq

inductive ConsensusStakingAction where
  | bond (candidate : SignedByValidator ValidatorCandidacy)
  | payFeesForDaDi (laneId : LaneId) (cumulSize : LaneBytesSize)
  deriving DecidableEq

structure ConsensusProposal where
  slot : Slot
  parentHash : ConsensusProposalHash
  cut : Cut
  stakingActions : List ConsensusStakingAction
  timestamp : TimestampMs
  deriving DecidableEq,Inhabited

namespace ConsensusProposal

open Bytes

def stakingActionBytes : ConsensusStakingAction → Bytes
  | .bond candidate => candidate.signature.validator
  | .payFeesForDaDi laneId cumulSize => laneId++u64Bytes cumulSize

/-- The bytes fed to the digest: neither lane sizes, nor PoDA signatures, nor the signature
and address of a candidate are among them. -/
def preimage (self : ConsensusProposal) : Bytes :=
  u64Bytes self.slot++
    self.cut.flatMap (fun entry => entry.1++utf8 entry.2.1)++
    self.stakingActions.flatMap stakingActionBytes++
    ofNatLE 16 self.timestamp.toNat++
    utf8 self.parentHash

def hashed (sha3 : Bytes → H256) (self : ConsensusProposal) : ConsensusProposalHash :=
  hex (sha3 self.preimage).toList

end ConsensusProposal

/-- The markers tell the phases of consensus apart by type. -/
structure PrepareVoteMarker where
  deriving DecidableEq

structure ConfirmAckMarker where
  deriving DecidableEq

structure ConsensusTimeoutMarker where
  deriving DecidableEq

-- A unit struct has no fields to write.
instance : Borsh PrepareVoteMarker where
  ser _ := some []
  de bs := some (⟨⟩,bs)

instance : Borsh ConfirmAckMarker where
  ser _ := some []
  de bs := some (⟨⟩,bs)

instance : Borsh ConsensusTimeoutMarker where
  ser _ := some []
  de bs := some (⟨⟩,bs)

abbrev PrepareVote := SignedByValidator (ConsensusProposalHash × PrepareVoteMarker)
abbrev ConfirmAck := SignedByValidator (ConsensusProposalHash × ConfirmAckMarker)
abbrev SignedTimeout :=
  SignedByValidator (Slot × View × ConsensusProposalHash × ConsensusTimeoutMarker)

/-- An aggregate signature under the marker of the messages that it stands for. -/
structure QuorumCertificate (Marker : Type) where
  aggregate : AggregateSignature
  marker : Marker
  deriving DecidableEq

abbrev PrepareQC := QuorumCertificate PrepareVoteMarker
abbrev CommitQC := QuorumCertificate ConfirmAckMarker
abbrev TimeoutQC := QuorumCertificate ConsensusTimeoutMarker

inductive TCKind where
  | nilProposal
  | prepareQC (qc : PrepareQC) (proposal : ConsensusProposal)
  deriving DecidableEq

inductive TimeoutKind where
  /-- Sign a different message to signify 'nil proposal' for aggregation. -/
  | nilProposal (timeout : SignedTimeout)
  /-- Resending the prepare QC and the matching proposal. -/
  | prepareQC (qc : PrepareQC) (proposal : ConsensusProposal)
  deriving DecidableEq

abbrev ConsensusTimeout := SignedTimeout × TimeoutKind

/-- What allows a leader to send a prepare. -/
inductive Ticket where
  | genesis
  | commitQC (qc : CommitQC)
  | timeoutQC (qc : TimeoutQC) (kind : TCKind)
  /-- Used internally, never to start a slot. -/
  | forcedCommitQc
  deriving DecidableEq

abbrev Prepare := ValidatorPublicKey × ConsensusProposal × Ticket × View

inductive ConsensusNetMessage where
  | prepare (proposal : ConsensusProposal) (ticket : Ticket) (view : View)
  | prepareVote (vote : PrepareVote)
  | confirm (qc : PrepareQC) (proposalHashHint : ConsensusProposalHash)
  | confirmAck (ack : ConfirmAck)
  | commit (qc : CommitQC) (proposalHashHint : ConsensusProposalHash)
  | timeout (timeout : ConsensusTimeout)
  | timeoutCertificate (qc : TimeoutQC) (kind : TCKind) (slot : Slot) (view : View)
  | validatorCandidacy (candidacy : SignedByValidator ValidatorCandidacy)
  | syncRequest (proposalHash : ConsensusProposalHash)
  | syncReply (prepare : Prepare)
  deriving DecidableEq

end TruthSeeker
