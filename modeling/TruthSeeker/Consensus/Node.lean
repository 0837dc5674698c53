import TruthSeeker.Consensus.VerifyPoda
import TruthSeeker.Framework.Handler

namespace TruthSeeker

open Outcome

def ValidatorCandidacy.layout : Borsh.Layout ValidatorCandidacy String where
  fields c := c.peerAddress
  make peerAddress := ⟨peerAddress⟩
  make_fields _ := rfl

instance : Borsh ValidatorCandidacy := ValidatorCandidacy.layout.borsh

inductive TimestampCheck where
  | noCheck
  | monotonic
  | full
  deriving DecidableEq

structure ConsensusConfig where
  timestampChecks : TimestampCheck
  slotDuration : TimestampMs
  publicAddress : String

/-- The parts of the consensus module that stay the same. -/
structure Consensus (PublicKey BlstSignature : Type) where
  crypto : BlstCrypto PublicKey BlstSignature
  config : ConsensusConfig
  sha3 : Bytes → H256
  /-- The number of nested calls of `on_prepare` that the stack has room for. -/
  stackDepth : Nat

/-- What the module puts on its bus. -/
inductive Sent where
  | broadcast (message : ConsensusNetMessage)
  | message (recipient : ValidatorPublicKey) (message : ConsensusNetMessage)
  | commitConsensusProposal (committed : CommittedConsensusProposal)
  | startNewSlot (mayDelay : Bool)
  /-- The start of the slot without a further delay, put off by the duration of a slot. -/
  | delayedStartNewSlot
  | connectTo (peer : String)

/-- What a node does, in the order of the code. -/
inductive Deed where
  | sent (item : Sent)
  /-- `emit_commit_event` puts the commit on the bus. -/
  | emittedCommit (committed : CommittedConsensusProposal)
  /-- A call of `on_prepare`. -/
  | handled (prepare : Prepare)
  /-- A call of `on_confirm`. -/
  | handledConfirm (qc : PrepareQC) (proposalHashHint : ConsensusProposalHash)
  /-- A prepare passes all checks, and its proposal becomes the current one. -/
  | accepted (prepare : Prepare)
  | created (proposal : ConsensusProposal)
  | proposed (prepare : Prepare)
  /-- A joining node takes up a buffered proposal to commit it. -/
  | recalled (proposal : ConsensusProposal)
  | joined
  /-- A joining node follows a block. -/
  | followed (block : Block)
  /-- A verified prepare QC is seen, with its proposal. -/
  | seenPrepareQc (slot : Slot) (qc : PrepareQC) (proposal : ConsensusProposal)
  /-- `verify_tc` has accepted the certificate. -/
  | verifiedTc (qc : TimeoutQC) (kind : TCKind) (slot : Slot) (view : View)
  /-- The current proposal is about to be committed for the ticket of the next slot. -/
  | forcing (proposal : ConsensusProposal) (view : View)
  | applied (ticket : Ticket)
  | countedVote (vote : PrepareVote)
  | countedAck (ack : ConfirmAck)
  | countedTimeout (timeout : ConsensusTimeout)
  | joinedMutiny
  | certified (qc : TimeoutQC) (kind : TCKind)

/-- A deed with the round before it. -/
structure Entry where
  round : BFTRoundState
  deed : Deed

/-- The store of the module, with the history of what it has done. The code keeps no such
history, and nothing reads it. -/
structure Node extends ConsensusStore where
  log : List Entry

namespace Node

/-- A change of the store that goes into the history. -/
def perform (deed : Deed) (f : ConsensusStore → ConsensusStore) (n : Node) : Node :=
  ⟨f n.toConsensusStore,n.log++[⟨n.bftRoundState,deed⟩]⟩

/-- A change of the round that goes into the history. -/
def performRound (deed : Deed) (f : BFTRoundState → BFTRoundState) (n : Node) : Node :=
  n.perform deed fun store => { store with bftRoundState := f store.bftRoundState }

def note (deed : Deed) (n : Node) : Node := n.perform deed id

def setRound (f : BFTRoundState → BFTRoundState) (n : Node) : Node :=
  { n with bftRoundState := f n.bftRoundState }

def round : Handler Node BFTRoundState := .read fun n => n.bftRoundState

def updateRound (f : BFTRoundState → BFTRoundState) : Handler Node Unit := .modify (setRound f)

def act (deed : Deed) (f : BFTRoundState → BFTRoundState) : Handler Node Unit :=
  .modify (performRound deed f)

def remember (deed : Deed) : Handler Node Unit := .modify (note deed)

def send (item : Sent) : Handler Node Unit := remember (.sent item)

/-- A call of the staking state that may have changed it before it fails. -/
def updateStaking (f : Staking → Outcome Unit × Staking) : Handler Node Unit := fun n =>
  let result := f n.bftRoundState.staking
  (result.1,{ n with bftRoundState := { n.bftRoundState with staking := result.2 } })

end Node

namespace Staking

def applyAction (self : Staking) : ConsensusStakingAction → Outcome Unit × Staking
  | .bond candidate => self.applied (self.bond candidate.signature.validator)
  | .payFeesForDaDi laneId cumulSize => (.ok (),self.payForDadi laneId cumulSize)

/-- The staking actions of a committed proposal, and then the distribution of the fees. -/
def applyActions (actions : List ConsensusStakingAction) (self : Staking) :
    Outcome Unit × Staking :=
  match processEach applyAction actions self with
  | (.ok (),next) => next.distribute
  | stopped => stopped

end Staking

namespace BFTRoundState

section
variable (sha3 : Bytes → H256) (self : BFTRoundState)

/-- Round robin on slot and view. -/
def roundLeader : Outcome ValidatorPublicKey := do
  panicUnless (self.staking.bonded.length≠0)
    "attempt to calculate the remainder with a divisor of zero"
  let index := (self.slot+self.view-1).toNat%self.staking.bonded.length
  fromOption self.staking.bonded[index]? (.err "No next leader found")

def nextViewLeader : Outcome ValidatorPublicKey :=
  { self with view := self.view+1 }.roundLeader

def isRoundLeader : Bool := self.stateTag=.leader

def currentSlotPrepareIsPresent : Bool := self.currentProposal.slot=self.slot

def isPartOfConsensus (pubkey : ValidatorPublicKey) : Bool := self.staking.isBonded pubkey

def getOwnVotingPower (own : ValidatorPublicKey) : Outcome U128 :=
  if self.isPartOfConsensus own then
    fromOption (self.staking.getStake own) (.panic "I'm not in my own staking registry !")
  else .ok 0

def hasNoBufferedChildren : Bool :=
  (self.follower.bufferedPrepares.nextPrepare (self.currentProposal.hashed sha3)).isNone

def currentProposalChangesVotingPower : Bool :=
  self.currentProposal.stakingActions.any fun
    | .bond _ => true
    | .payFeesForDaDi _ _ => false

/-- What every ticket resets. -/
def reset : BFTRoundState :=
  { self with
    leader := LeaderState.default
    timeout := { self.timeout with requests := [] } }

/-- The current proposal becomes the parent, and its staking actions are taken out of it. -/
def nextSlot (qc : Option CommitQC) : BFTRoundState :=
  { self with
    slot := self.slot+1
    view := 0
    parentHash := self.currentProposal.hashed sha3
    parentTimestamp := self.currentProposal.timestamp
    parentCut := self.currentProposal.cut
    follower := { self.follower with bufferedQuorumCertificate := qc }
    currentProposal := { self.currentProposal with stakingActions := [] } }

def nextView : BFTRoundState :=
  { self with
    view := self.view+1
    follower := { self.follower with bufferedQuorumCertificate := none } }

def updateLeader (f : LeaderState → LeaderState) : BFTRoundState :=
  { self with leader := f self.leader }

def scheduleNext (now : TimestampMs) : BFTRoundState :=
  { self with timeout := { self.timeout with state := .scheduleNext now } }

def pushPrepare (prepare : Prepare) : BFTRoundState :=
  { self with follower :=
      { self.follower with
        bufferedPrepares := self.follower.bufferedPrepares.push sha3 prepare } }

end

end BFTRoundState

namespace Node

/-- The event that lets the mempool build a block. -/
def emitCommitEvent (qc : CommitQC) : Handler Node Unit := do
  let round ← Node.round
  remember (.emittedCommit ⟨round.staking,round.currentProposal,qc.aggregate⟩)

def onValidatorCandidacy (candidacy : SignedByValidator ValidatorCandidacy) :
    Handler Node Unit := do
  let round ← Node.round
  if round.isPartOfConsensus candidacy.signature.validator then pure ()
  else
    match round.staking.getStake candidacy.signature.validator with
    | none => .fail "🛑 Candidate validator is not staking !"
    | some stake =>
        if stake<MIN_STAKE then
          .fail "🛑 Candidate validator does not have enough stake to be part of consensus"
        else .modify fun n => { n with validatorCandidates := n.validatorCandidates++[candidacy] }

/-- The part of a new block that only a joining node reads: it counts as committed. -/
def followBlock (block : Block) (round : BFTRoundState) : BFTRoundState :=
  { round with
    stakingUpdatedTo := block.blockHeight
    slot := block.blockHeight+1
    view := 0
    parentHash := block.hash
    currentProposal := { (Inhabited.default : ConsensusProposal) with slot := block.blockHeight }
    timeout := { round.timeout with requests := [] } }

def handleNodeStateEvent (block : Block) : Handler Node Unit := do
  updateStaking fun staking => staking.processBlock block
  let round ← Node.round
  .whenever (round.stateTag=.joining ∧ round.stakingUpdatedTo<block.blockHeight)
    (act (.followed block) (followBlock block))

end Node

namespace Consensus

open Node

variable {PublicKey BlstSignature : Type} (self : Consensus PublicKey BlstSignature)

def validatorPubkey : ValidatorPublicKey := self.crypto.validatorPubkey

def finishSlot (ticket : Ticket) (qc : Option CommitQC) : Handler Node Unit := do
  let round ← Node.round
  act (.applied ticket) fun round => round.nextSlot self.sha3 qc
  updateStaking (Staking.applyActions round.currentProposal.stakingActions)

def useTicket : Ticket → Handler Node Unit
  | .commitQC qc => self.finishSlot (.commitQC qc) (some qc)
  | .forcedCommitQc => self.finishSlot .forcedCommitQc none
  | .timeoutQC qc kind => act (.applied (.timeoutQC qc kind)) BFTRoundState.nextView
  | .genesis => .fail "Genesis Ticket not accepted."

def enterRound (now : TimestampMs) : Handler Node Unit := do
  let round ← Node.round
  let leader ← .lift round.roundLeader
  if leader=self.validatorPubkey then
    updateRound fun round => { round with stateTag := .leader }
  else
    updateRound fun round => { round with stateTag := .follower }.scheduleNext now

/-- Update the state for the next round of consensus. -/
def applyTicket (now : TimestampMs) (ticket : Ticket) : Handler Node Unit := do
  let round ← Node.round
  if round.stateTag=.joining then
    .fail "Cannot finish_round unless synchronized to the consensus."
  else do
    updateRound BFTRoundState.reset
    self.useTicket ticket
    self.enterRound now

def sendCandidacy : Handler Node Unit := do
  let candidacy ← .lift (self.crypto.sign (⟨self.config.publicAddress⟩ : ValidatorCandidacy))
  send (.broadcast (.validatorCandidacy candidacy))

/-- Decide what to do at the beginning of the next round. -/
def beginRound (ticket : Ticket) : Handler Node Unit := do
  let round ← Node.round
  if round.isRoundLeader=true ∧ round.hasNoBufferedChildren self.sha3=true ∧
      ticket≠.forcedCommitQc then do
    updateRound fun round =>
      round.updateLeader fun leader => { leader with pendingTicket := some ticket }
    send (.startNewSlot true)
  else if round.isPartOfConsensus self.validatorPubkey then pure ()
  else if MIN_STAKE<(round.staking.getStake self.validatorPubkey).getD 0 then self.sendCandidacy
  else pure ()

/-- Apply the ticket, and start the new round with it. -/
def advanceRound (now : TimestampMs) (ticket : Ticket) : Handler Node Unit := do
  self.applyTicket now ticket
  self.beginRound ticket

end Consensus

end TruthSeeker
