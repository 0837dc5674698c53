import TruthSeeker.Consensus.Network
import TruthSeeker.Staking.State

namespace TruthSeeker

open Outcome

/-- History of seen prepares and buffer of future ones. -/
structure BufferedPrepares where
  prepares : Std.ExtTreeMap ConsensusProposalHash Prepare
  children : Std.ExtTreeMap ConsensusProposalHash ConsensusProposalHash

namespace BufferedPrepares

def empty : BufferedPrepares := ⟨∅,∅⟩

def contains (self : BufferedPrepares) (proposalHash : ConsensusProposalHash) : Bool :=
  self.prepares.contains proposalHash

def push (sha3 : Bytes → H256) (self : BufferedPrepares) (prepare : Prepare) :
    BufferedPrepares :=
  let proposalHash := prepare.2.1.hashed sha3
  { children := self.children.insert prepare.2.1.parentHash proposalHash
    prepares := self.prepares.insert proposalHash prepare }

def get (self : BufferedPrepares) (proposalHash : ConsensusProposalHash) : Option Prepare :=
  self.prepares[proposalHash]?

def nextPrepare (self : BufferedPrepares) (proposalHash : ConsensusProposalHash) :
    Option Prepare :=
  self.children[proposalHash]?.bind fun child => self.prepares[child]?

end BufferedPrepares

inductive Step where
  | startNewSlot
  | prepareVote
  | confirmAck
  deriving DecidableEq

/-- The votes are sets: a list keeps each vote once, in the order of arrival. -/
structure LeaderState where
  step : Step
  prepareVotes : List PrepareVote
  confirmAck : List ConfirmAck
  pendingTicket : Option Ticket

def LeaderState.default : LeaderState := ⟨.startNewSlot,[],[],none⟩

structure FollowerState where
  bufferedQuorumCertificate : Option CommitQC
  bufferedPrepares : BufferedPrepares

inductive TimeoutState where
  | inactive
  | scheduled (timestamp : TimestampMs)
  | certificateEmitted
  deriving DecidableEq

namespace TimeoutState

/-- Five seconds, in milliseconds. -/
def TIMEOUT_SECS : TimestampMs := 5000

def scheduleNext (timestamp : TimestampMs) : TimeoutState := .scheduled (timestamp+TIMEOUT_SECS)

end TimeoutState

structure TimeoutRoleState where
  requests : List ConsensusTimeout
  state : TimeoutState
  highestSeenPrepareQc : Option (Slot × PrepareQC)

/-- The QC replaces the stored one unless it is for an earlier slot. -/
def TimeoutRoleState.updateHighestSeenPrepareQc (self : TimeoutRoleState) (slot : Slot)
    (qc : PrepareQC) : Bool × TimeoutRoleState :=
  match self.highestSeenPrepareQc with
  | some (s,_) =>
      if slot<s then (false,self)
      else (true,{ self with highestSeenPrepareQc := some (slot,qc) })
  | none => (true,{ self with highestSeenPrepareQc := some (slot,qc) })

inductive StateTag where
  | joining
  | leader
  | follower
  deriving DecidableEq

structure BFTRoundState where
  staking : Staking
  slot : Slot
  view : View
  parentHash : ConsensusProposalHash
  parentTimestamp : TimestampMs
  parentCut : Cut
  currentProposal : ConsensusProposal
  leader : LeaderState
  follower : FollowerState
  timeout : TimeoutRoleState
  stakingUpdatedTo : Slot
  stateTag : StateTag

def BFTRoundState.default : BFTRoundState where
  staking := Staking.new
  slot := 0
  view := 0
  parentHash := ""
  parentTimestamp := 0
  parentCut := []
  currentProposal := Inhabited.default
  leader := LeaderState.default
  follower := ⟨none,BufferedPrepares.empty⟩
  timeout := ⟨[],.inactive,none⟩
  stakingUpdatedTo := 0
  stateTag := .joining

structure ConsensusStore where
  bftRoundState : BFTRoundState
  /-- Validators that asked to be part of consensus. -/
  validatorCandidates : List (SignedByValidator ValidatorCandidacy)

structure CommittedConsensusProposal where
  staking : Staking
  consensusProposal : ConsensusProposal
  /-- This can be different for different validators. -/
  certificate : AggregateSignature

/-- The outcome of the signature check beside the check of the signers. -/
def signaturesAccepted : Outcome Bool → Bool → Outcome Unit
  | .ok false,true => err "Quorum Certificate received is invalid"
  | .error (.err e),_ => err s!"Quorum Certificate verification failed: {e}"
  | .error fault,_ => .error fault
  | .ok _,false => err "Quorum Certificate received contains non-consensus validators"
  | .ok true,true => .ok ()

theorem signaturesAccepted_eq_ok {res : Outcome Bool} {known : Bool} {u : Unit} :
    signaturesAccepted res known=.ok u ↔ res=.ok true ∧ known=true := by
  cases res with
  | error fault => cases fault <;> simp [signaturesAccepted]
  | ok valid => cases valid <;> cases known <;> simp [signaturesAccepted]

namespace BFTRoundState

variable {PublicKey BlstSignature T Marker : Type}
variable (blst : Blst PublicKey BlstSignature) (sha3 : Bytes → H256) (self : BFTRoundState)

def verifyQuorumSignersPartOfConsensus (qc : QuorumCertificate Marker) : Bool :=
  qc.aggregate.validators.all fun v => self.staking.bonded.any fun v2 => v2=v

/-- The certificate is for the message, its signers are bonded and above 2f+1 of the power. -/
def verifyQuorumCertificate [Borsh T] (message : T) (qc : QuorumCertificate Marker) :
    Outcome Unit := do
  signaturesAccepted (blst.verifyAggregate ⟨message,qc.aggregate⟩)
    (self.verifyQuorumSignersPartOfConsensus qc)
  let votingPower := self.staking.computeVotingPower qc.aggregate.validators
  ensure (¬votingPower<2*self.staking.computeF+1)
    "Quorum Certificate does not contain enough voting power"

def verifyCommitQuorumCertificateAgainstCurrentProposal (qc : CommitQC) : Outcome Unit :=
  self.verifyQuorumCertificate blst
    (self.currentProposal.hashed sha3,(⟨⟩ : ConfirmAckMarker)) qc

theorem verifyQuorumCertificate_eq_ok [Borsh T] {message : T} {qc : QuorumCertificate Marker} :
    self.verifyQuorumCertificate blst message qc=.ok () ↔
      ∃ encoded,toVec message=.ok encoded ∧ blst.Verifies qc.aggregate encoded ∧
        (∀ v ∈ qc.aggregate.validators,v ∈ self.staking.bonded) ∧
        2*self.staking.computeF+1 ≤ self.staking.computeVotingPower qc.aggregate.validators := by
  have signers : self.verifyQuorumSignersPartOfConsensus qc=true ↔
      ∀ v ∈ qc.aggregate.validators,v ∈ self.staking.bonded := by
    simp [verifyQuorumSignersPartOfConsensus]
  simp only [verifyQuorumCertificate,bind_eq_ok,signaturesAccepted_eq_ok,ensure_eq_ok,
    Blst.verifyAggregate_eq_ok_true,signers,BitVec.not_lt,exists_const]
  constructor
  · intro h
    obtain ⟨⟨⟨encoded,he,hv⟩,hs⟩,hp⟩ := h
    exact ⟨encoded,he,hv,hs,hp⟩
  · intro h
    obtain ⟨encoded,he,hv,hs,hp⟩ := h
    exact ⟨⟨⟨encoded,he,hv⟩,hs⟩,hp⟩

end BFTRoundState

end TruthSeeker
