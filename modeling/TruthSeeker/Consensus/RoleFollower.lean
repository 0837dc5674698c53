import TruthSeeker.Consensus.RoleTimeout

namespace TruthSeeker

open Outcome

namespace BFTRoundState

variable (self : BFTRoundState)

/-- The prepare that lets a joining node take part: the one that follows what it has committed,
or a later one than the one that it still holds. -/
def expectsPrepare (proposal : ConsensusProposal) (view : View) : Bool :=
  if self.currentSlotPrepareIsPresent then
    proposal.slot=self.slot+1 || (proposal.slot=self.slot && self.view<view)
  else proposal.slot=self.slot

/-- A ticket is looked at for the current slot, and for the next one if the proposal of the
current one is there. -/
def ticketInReach (proposal : ConsensusProposal) : Bool :=
  proposal.slot=self.slot ||
    (proposal.slot=self.slot+1 && self.currentSlotPrepareIsPresent)

/-- The certificate of a timeout in the next slot stands in for a commit certificate. -/
def forcesCommit (sha3 : Bytes → H256) (proposal : ConsensusProposal) : Bool :=
  proposal.slot=self.slot+1 && self.currentSlotPrepareIsPresent &&
    proposal.parentHash=self.currentProposal.hashed sha3

/-- The prepare has a ticket that commits the current proposal before it is verified. -/
def forcedBy (sha3 : Bytes → H256) (prepare : Prepare) : Bool :=
  match prepare.2.2.1 with
  | .timeoutQC _ .nilProposal =>
      self.forcesCommit sha3 prepare.2.1 && !self.currentProposalChangesVotingPower
  | .timeoutQC _ (.prepareQC _ prepared) =>
      prepared=prepare.2.1 && self.forcesCommit sha3 prepare.2.1 &&
        !self.currentProposalChangesVotingPower
  | _ => false

def monotonicCheck (timestamp : TimestampMs) : Outcome Unit :=
  ensure (¬timestamp ≤ self.parentTimestamp)
    (s!"Timestamp {timestamp.toNat} too old (should be > {self.parentTimestamp.toNat}, "++
      s!"{(self.parentTimestamp-timestamp).toNat} ms too old)")

/-- The latest timestamp that is accepted: two slots and the timeouts of the views. -/
def nextMaxTimestamp (slotDuration : TimestampMs) : TimestampMs :=
  self.parentTimestamp+
    (slotDuration*2+TimeoutState.TIMEOUT_SECS*BitVec.ofNat 128 self.view.toUInt32.toNat)

def verifyTimestamp (config : ConsensusConfig) (proposal : ConsensusProposal) : Outcome Unit :=
  if self.parentTimestamp=0 then .ok ()
  else
    match config.timestampChecks with
    | .noCheck => .ok ()
    | .monotonic => self.monotonicCheck proposal.timestamp
    | .full => do
        self.monotonicCheck proposal.timestamp
        let latest := self.nextMaxTimestamp config.slotDuration
        ensure (¬latest<proposal.timestamp)
          (s!"Timestamp {proposal.timestamp.toNat} too late (should be < {latest.toNat}, "++
            s!"exceeded by {(proposal.timestamp-latest).toNat} ms)")

/-- The parent that is not buffered yet, along the parents of a prepare. The walk ends at the
current proposal. Without an end, it never returns. -/
def missingParent (current : ConsensusProposalHash) :
    Nat → ConsensusProposalHash → Outcome (Option ConsensusProposalHash)
  | 0,_ => Outcome.panic "the parents of the buffered prepares have no end"
  | fuel+1,missing =>
      match self.follower.bufferedPrepares.get missing with
      | none => .ok (some missing)
      | some prepare =>
          if missing=current then .ok none
          else missingParent current fuel prepare.2.1.parentHash

end BFTRoundState

/-- Verify that the fees paid by the disseminator are correct. -/
def verifyDadiFees (cut : Cut) (laneId : LaneId) (cumulSize : LaneBytesSize) : Outcome Unit :=
  ensure (∃ entry ∈ cut,entry.1=laneId ∧ entry.2.2.1=cumulSize)
    (s!"Malformed PayFeesForDadi. Not found in cut: {ValidatorPublicKey.display laneId}, "++
      s!"{cumulSize}")

inductive TicketVerifyAndProcess where
  | notProcessed
  | processed
  deriving DecidableEq

namespace Consensus

open Node

variable {PublicKey BlstSignature : Type} (self : Consensus PublicKey BlstSignature)

/-- A validator that is about to be bonded has enough stake and a valid signature. -/
def verifyNewValidatorsToBond (newValidator : SignedByValidator ValidatorCandidacy) :
    Handler Node Unit := do
  let round ← Node.round
  match round.staking.getStake newValidator.signature.validator with
  | none => .fail "New bonded validator has no stake"
  | some stake =>
      if stake<MIN_STAKE then .fail "New bonded validator has not enough stake to be bonded"
      else do
        let valid ← .lift (self.crypto.verifySigned newValidator)
        .lift (ensure (valid=true) "New bonded validator has an invalid signature")
        -- The node's own list of candidates has no use for it any more.
        .modify fun n =>
          { n with validatorCandidates := n.validatorCandidates.filter fun v =>
              v.signature.validator≠newValidator.signature.validator }
        send (.connectTo newValidator.msg.peerAddress)

def verifyStakingAction (cut : Cut) : ConsensusStakingAction → Handler Node Unit
  | .bond candidate => self.verifyNewValidatorsToBond candidate
  | .payFeesForDaDi laneId cumulSize => .lift (verifyDadiFees cut laneId cumulSize)

def verifyStakingActions (cut : Cut) : List ConsensusStakingAction → Handler Node Unit
  | [] => pure ()
  | action::actions => do
      self.verifyStakingAction cut action
      verifyStakingActions cut actions

/-- A bonded node to ask for a parent: the one drawn, or the next one after the node itself. -/
def nodeToAsk (bonded : List ValidatorPublicKey) (draw : Nat) : Option ValidatorPublicKey :=
  if bonded=[] then none
  else
    match bonded[draw]? with
    | none => bonded[(draw+1)%bonded.length]?
    | some validator =>
        if validator=self.validatorPubkey then bonded[(draw+1)%bonded.length]?
        else some validator

/-- A prepare of a later slot waits until its parents are there. -/
def bufferPrepareMessageAndFetchMissingParent (draw : Nat) (prepare : Prepare) :
    Handler Node Unit := do
  let proposal := prepare.2.1
  let round ← Node.round
  .whenever (round.follower.bufferedPrepares.contains (proposal.hashed self.sha3)=false)
    (updateRound fun round => round.pushPrepare self.sha3 prepare)
  let round ← Node.round
  let missing ← .lift (round.missingParent (round.currentProposal.hashed self.sha3)
    (round.follower.bufferedPrepares.prepares.size+1) proposal.parentHash)
  match missing with
  | none => pure ()
  | some missing =>
      match self.nodeToAsk round.staking.bonded draw with
      | none => send (.broadcast (.syncRequest missing))
      | some node => send (.message node (.syncRequest missing))

def verifyAndProcessCommitTicket (now : TimestampMs) (proposal : ConsensusProposal)
    (qc : CommitQC) : Handler Node TicketVerifyAndProcess := do
  let round ← Node.round
  if round.ticketInReach proposal=false then return .notProcessed
  else if round.follower.bufferedQuorumCertificate=some qc then return .processed
  else if round.currentSlotPrepareIsPresent=false then do
    -- Another certificate of the commit is already known: the staking has moved on since.
    .lift (round.verifyQuorumCertificate self.crypto.toBlst
      (round.parentHash,(⟨⟩ : ConfirmAckMarker)) qc)
    return .processed
  else do
    .lift (round.verifyCommitQuorumCertificateAgainstCurrentProposal self.crypto.toBlst
      self.sha3 qc)
    emitCommitEvent qc
    self.advanceRound now (.commitQC qc)
    return .processed

/-- The commit without a certificate. The certificate of the timeout is verified later on. -/
def forceCommit (now : TimestampMs) (proposal : ConsensusProposal) (view : View) :
    Handler Node Unit := do
  let round ← Node.round
  if round.currentProposalChangesVotingPower then
    .fail (s!"Timeout Certificate slot {proposal.slot} view {view} is for the next slot, and "++
      "current proposal changes voting power")
  else do
    remember (.forcing proposal view)
    .context "Processing TC ticket" (emitCommitEvent ⟨Inhabited.default,⟨⟩⟩)
    self.advanceRound now .forcedCommitQc

/-- A ticket with a prepared proposal is for that proposal. -/
def ticketMatches (proposal : ConsensusProposal) : TCKind → Outcome Unit
  | .nilProposal => .ok ()
  | .prepareQC _ prepared => ensure (prepared=proposal)
      (s!"Timeout Certificate does not match consensus proposal. Expected "++
        s!"{prepared.hashed self.sha3}, got {proposal.hashed self.sha3}")

def verifyAndProcessTcTicket (now : TimestampMs) (qc : TimeoutQC) (kind : TCKind)
    (proposal : ConsensusProposal) (view : View) : Handler Node TicketVerifyAndProcess := do
  let round ← Node.round
  if round.ticketInReach proposal=false then return .notProcessed
  else do
    .lift (self.ticketMatches proposal kind)
    .whenever (round.forcesCommit self.sha3 proposal=true) (self.forceCommit now proposal view)
    let round ← Node.round
    .lift (ensure (proposal.slot=round.slot)
      (s!"Timeout Certificate slot {proposal.slot} view {view} is not the current slot "++
        s!"{round.slot}"))
    self.verifyTc qc kind round.slot (view-1)
    .whenever (view=round.view+1) (self.advanceRound now (.timeoutQC qc kind))
    return .processed

def processTicket (now : TimestampMs) (proposal : ConsensusProposal) (view : View) :
    Ticket → Handler Node TicketVerifyAndProcess
  | .genesis => do
      let round ← Node.round
      .lift (ensure (round.slot=1) "Genesis ticket is only valid for the first slot.")
      return .processed
  | .commitQC qc =>
      .context "Processing Commit Ticket" (self.verifyAndProcessCommitTicket now proposal qc)
  | .timeoutQC qc kind =>
      .context "Processing TC ticket" (self.verifyAndProcessTcTicket now qc kind proposal view)
  | .forcedCommitQc => .fail "Cannot process invalid ticket here ForcedCommitQc"

def votePrepare (leader : ValidatorPublicKey) (hash : ConsensusProposalHash) :
    Handler Node Unit := do
  let round ← Node.round
  .whenever (round.isPartOfConsensus self.validatorPubkey=true) do
    let vote ← .lift (self.crypto.sign (hash,(⟨⟩ : PrepareVoteMarker)))
    send (.message leader (.prepareVote vote))

/-- The proposal of the current leader becomes the current one, and the node votes for it
unless it knows the next prepare already. -/
def acceptPrepare (prepare : Prepare) : Handler Node (Option Prepare) := do
  let proposal := prepare.2.1
  let round ← Node.round
  .lift (ensure (proposal.slot=round.slot) "Prepare message received for wrong slot")
  .lift (ensure (prepare.2.2.2=round.view) "Prepare message received for wrong view")
  let leader ← .lift round.roundLeader
  .lift (ensure (prepare.1=leader)
    (s!"Prepare consensus message for {round.slot} {round.view} does not come from current "++
      s!"leader {ValidatorPublicKey.display leader}. I won't vote for it."))
  .lift (round.verifyPoda self.crypto.toBlst proposal)
  self.verifyStakingActions proposal.cut proposal.stakingActions
  .lift (round.verifyTimestamp self.config proposal)
  act (.accepted prepare) fun round => { round with currentProposal := proposal }
  updateRound fun round => round.pushPrepare self.sha3 prepare
  let round ← Node.round
  match round.follower.bufferedPrepares.nextPrepare (proposal.hashed self.sha3) with
  | some next => return some next
  | none => do
      self.votePrepare leader (proposal.hashed self.sha3)
      return none

/-- A prepare that the node takes part in, with the next one to go on with. -/
def followPrepare (now : TimestampMs) (draw : Nat) (prepare : Prepare) :
    Handler Node (Option Prepare) := do
  let round ← Node.round
  if prepare.2.1.slot< round.slot then return none
  else do
    match ← self.processTicket now prepare.2.1 prepare.2.2.2 prepare.2.2.1 with
    | .notProcessed => do
        self.bufferPrepareMessageAndFetchMissingParent draw prepare
        return none
    | .processed => self.acceptPrepare prepare

/-- One call of `on_prepare`, up to the call for the next prepare that it ends with. -/
def onPrepareOnce (now : TimestampMs) (draw : Nat) (prepare : Prepare) :
    Handler Node (Option Prepare) := do
  remember (.handled prepare)
  let round ← Node.round
  if round.stateTag≠.joining then self.followPrepare now draw prepare
  else if round.expectsPrepare prepare.2.1 prepare.2.2.2 then do
    updateRound fun round => { round with stateTag := .follower }
    self.followPrepare now draw prepare
  else do
    updateRound fun round => round.pushPrepare self.sha3 prepare
    return none

def onPrepareNested (now : TimestampMs) (draw : Nat) : Nat → Prepare → Handler Node Unit
  | 0,_ => .lift (Outcome.panic "stack overflow")
  | depth+1,prepare => do
      match ← self.onPrepareOnce now draw prepare with
      | none => pure ()
      | some next => onPrepareNested now draw depth next

def onPrepare (now : TimestampMs) (draw : Nat) (prepare : Prepare) : Handler Node Unit :=
  self.onPrepareNested now draw self.stackDepth prepare

def onConfirm (qc : PrepareQC) (proposalHashHint : ConsensusProposalHash) :
    Handler Node Unit := do
  remember (.handledConfirm qc proposalHashHint)
  let round ← Node.round
  if round.stateTag≠.follower ∨
      proposalHashHint≠round.currentProposal.hashed self.sha3 then pure ()
  else do
    .lift (round.verifyQuorumCertificate self.crypto.toBlst
      (proposalHashHint,(⟨⟩ : PrepareVoteMarker)) qc)
    let slot := round.slot
    act (.seenPrepareQc slot qc round.currentProposal)
      fun round => round.updateHighestSeenPrepareQc slot qc
    .whenever (round.isPartOfConsensus self.validatorPubkey=true) do
      let leader ← .lift round.roundLeader
      let ack ← .lift (self.crypto.sign (proposalHashHint,(⟨⟩ : ConfirmAckMarker)))
      send (.message leader (.confirmAck ack))

def onCommitWhileJoining (now : TimestampMs) (qc : CommitQC)
    (proposalHashHint : ConsensusProposalHash) : Handler Node Unit := do
  let round ← Node.round
  match round.follower.bufferedPrepares.get proposalHashHint with
  | none => pure ()
  | some prepare =>
      if prepare.2.1.slot≤ round.slot ∨ round.stakingUpdatedTo+1<prepare.2.1.slot then pure ()
      else do
        act (.recalled prepare.2.1) fun round => { round with currentProposal := prepare.2.1 }
        let round ← Node.round
        .context "On Commit when joining"
          (.lift (round.verifyCommitQuorumCertificateAgainstCurrentProposal self.crypto.toBlst
            self.sha3 qc))
        act .joined fun round =>
          { round with slot := round.currentProposal.slot,view := 0,stateTag := .follower }
        emitCommitEvent qc
        self.advanceRound now (.commitQC qc)

def onCommit (now : TimestampMs) (qc : CommitQC) (proposalHashHint : ConsensusProposalHash) :
    Handler Node Unit := do
  let round ← Node.round
  match round.stateTag with
  | .joining => self.onCommitWhileJoining now qc proposalHashHint
  | .follower =>
      if round.currentProposal.slot≠round.slot ∨
          round.currentProposal.hashed self.sha3≠proposalHashHint then pure ()
      else do
        .lift (round.verifyCommitQuorumCertificateAgainstCurrentProposal self.crypto.toBlst
          self.sha3 qc)
        emitCommitEvent qc
        self.advanceRound now (.commitQC qc)
  | .leader => pure ()

end Consensus

namespace Node

/-- A node answers with the prepare if it has it. -/
def onSyncRequest (sender : ValidatorPublicKey) (proposalHash : ConsensusProposalHash) :
    Handler Node Unit := do
  let round ← Node.round
  match round.follower.bufferedPrepares.get proposalHash with
  | none => pure ()
  | some prepare => send (.message sender (.syncReply prepare))

end Node

end TruthSeeker
