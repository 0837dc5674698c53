import TruthSeeker.Consensus.Node

namespace TruthSeeker

open Outcome

namespace BFTRoundState

variable (self : BFTRoundState)

/-- The message that a timeout of this round signs, whatever its kind. -/
def timeoutMessage : Slot × View × ConsensusProposalHash × ConsensusTimeoutMarker :=
  (self.slot,self.view,self.parentHash,⟨⟩)

def updateHighestSeenPrepareQc (slot : Slot) (qc : PrepareQC) : BFTRoundState :=
  { self with timeout := (self.timeout.updateHighestSeenPrepareQc slot qc).2 }

/-- The QC replaces the stored one unless that one is for a later slot, and its proposal then
replaces the current one. -/
def updatePrepareQc (slot : Slot) (qc : PrepareQC) (proposal : ConsensusProposal) :
    BFTRoundState :=
  match self.timeout.updateHighestSeenPrepareQc slot qc with
  | (true,timeout) => { self with timeout := timeout,currentProposal := proposal }
  | (false,timeout) => { self with timeout := timeout }

def insertRequest (request : ConsensusTimeout) : BFTRoundState :=
  { self with timeout :=
      { self.timeout with requests :=
          if request∈self.timeout.requests then self.timeout.requests
          else self.timeout.requests++[request] } }

/-- The prepare QC of the current slot, of whatever view. -/
def slotPrepareQc : Option PrepareQC :=
  match self.timeout.highestSeenPrepareQc with
  | some (slot,qc) => if slot=self.slot then some qc else none
  | none => none

end BFTRoundState

namespace Consensus

open Node

variable {PublicKey BlstSignature : Type} (self : Consensus PublicKey BlstSignature)

/-- The prepare QC that comes along with the certificate of a timeout. -/
def verifyTcKind (slot : Slot) : TCKind → Handler Node Unit
  | .nilProposal => pure ()
  | .prepareQC prepareQc proposal => do
      .lift (ensure (proposal.slot=slot)
        (s!"Received timeout certificate with prepare QC for slot {proposal.slot}, "++
          s!"but timeout is for slot {slot}"))
      let round ← Node.round
      .context "Verifying PrepareQC" (.lift (round.verifyQuorumCertificate self.crypto.toBlst
        (proposal.hashed self.sha3,(⟨⟩ : PrepareVoteMarker)) prepareQc))
      act (.seenPrepareQc slot prepareQc proposal)
        fun round => round.updatePrepareQc slot prepareQc proposal

/-- Both kinds of certificates are of the same message. -/
def verifyTc (qc : TimeoutQC) (kind : TCKind) (slot : Slot) (view : View) :
    Handler Node Unit := do
  let round ← Node.round
  let certificate := match kind with
    | .nilProposal => "Nil timeout certificate"
    | .prepareQC _ _ => "timeout certificate with prepare QC"
  .context s!"Verifying {certificate} for (slot: {round.slot}, view: {round.view})"
    (.lift (round.verifyQuorumCertificate self.crypto.toBlst
      (slot,view,round.parentHash,(⟨⟩ : ConsensusTimeoutMarker)) qc))
  self.verifyTcKind slot kind
  remember (.verifiedTc qc kind slot view)

def onTimeoutCertificate (now : TimestampMs) (qc : TimeoutQC) (kind : TCKind) (slot : Slot)
    (view : View) : Handler Node Unit := do
  let round ← Node.round
  if slot≠round.slot ∨ view≠round.view then pure ()
  else do
    self.verifyTc qc kind slot view
    let round ← Node.round
    let leader ← .lift round.nextViewLeader
    .whenever (leader≠self.validatorPubkey ∧ round.stateTag=.joining)
      (updateRound fun round => { round with stateTag := .leader })
    self.advanceRound now (.timeoutQC qc kind)

/-- Both kinds sign the same message. -/
def getTimeoutMessage (round : BFTRoundState) : Outcome ConsensusTimeout := do
  let metadata ← self.crypto.sign round.timeoutMessage
  match round.slotPrepareQc with
  | some qc => return (metadata,.prepareQC qc round.currentProposal)
  | none => do
      let signedNil ← self.crypto.sign round.timeoutMessage
      return (metadata,.nilProposal signedNil)

/-- The prepare QC that comes along with a timeout of the slot. -/
def verifyTimeoutKind (slot : Slot) : TimeoutKind → Handler Node Unit
  | .nilProposal _ => pure ()
  | .prepareQC qc proposal =>
      if proposal.slot=slot then do
        let round ← Node.round
        .context "Verifying PrepareQC" (.lift (round.verifyQuorumCertificate self.crypto.toBlst
          (proposal.hashed self.sha3,(⟨⟩ : PrepareVoteMarker)) qc))
        act (.seenPrepareQc slot qc proposal)
          fun round => round.updatePrepareQc slot qc proposal
      else .fail (s!"Received incorrect timeout message. PrepareQC is for slot {proposal.slot}, "++
        s!"but Timeout is about slot {slot}")

/-- The node's own timeout is added to those that it has received. -/
def joinMutiny (now : TimestampMs) (votingPower : U128) : Handler Node U128 := do
  let round ← Node.round
  let timeout ← .lift (self.getTimeoutMessage round)
  act .joinedMutiny fun round => round.insertRequest timeout
  send (.broadcast (.timeout timeout))
  let own ← .lift (round.getOwnVotingPower self.validatorPubkey)
  updateRound fun round => round.scheduleNext now
  return votingPower+own

def nilTimeouts : List ConsensusTimeout → Outcome (List SignedTimeout)
  | [] => .ok []
  | (_,.nilProposal signedNil)::requests => do
      let rest ← nilTimeouts requests
      return signedNil::rest
  | (_,.prepareQC _ _)::_ => err "All messages should be Nil Timeout messages"

/-- The certificate of the round, from the timeouts that have been received. -/
def timeoutTicket (round : BFTRoundState) : Outcome (TimeoutQC × TCKind) :=
  match round.slotPrepareQc with
  | some qc => do
      let signed ← self.crypto.signAggregate round.timeoutMessage
        (round.timeout.requests.map Prod.fst)
      return (⟨signed.signature,⟨⟩⟩,.prepareQC qc round.currentProposal)
  | none => do
      let timeouts ← nilTimeouts round.timeout.requests
      let signed ← self.crypto.signAggregate round.timeoutMessage timeouts
      return (⟨signed.signature,⟨⟩⟩,.nilProposal)

/-- The leader of the next view keeps the certificate to itself, others pass it on. -/
def announceTimeout (round : BFTRoundState) (ticket : TimeoutQC × TCKind)
    (leader : ValidatorPublicKey) : Handler Node Unit :=
  if leader=self.validatorPubkey then
    .whenever (round.stateTag=.joining)
      (updateRound fun round => { round with stateTag := .leader })
  else do
    send (.broadcast (.timeoutCertificate ticket.1 ticket.2 round.slot round.view))
    updateRound fun round =>
      { round with timeout := { round.timeout with state := .certificateEmitted } }

def createTimeoutCertificate (now : TimestampMs) : Handler Node Unit := do
  let round ← Node.round
  let ticket ← .lift (self.timeoutTicket round)
  act (.certified ticket.1 ticket.2) fun round => round.scheduleNext now
  let leader ← .lift round.nextViewLeader
  self.announceTimeout round ticket leader
  self.advanceRound now (.timeoutQC ticket.1 ticket.2)

/-- The power behind the timeouts, which the node joins once there are more than f. -/
def mutinyPower (now : TimestampMs) : Handler Node U128 := do
  let round ← Node.round
  let validators := round.timeout.requests.map fun request => request.1.signature.validator
  let received := round.staking.computeVotingPower validators
  if round.staking.computeF< received ∧ self.validatorPubkey∉validators then
    self.joinMutiny now received
  else pure received

/-- The timeouts that have been received are counted by the validators that they name. -/
def countTimeouts (now : TimestampMs) : Handler Node Unit := do
  let votingPower ← self.mutinyPower now
  let round ← Node.round
  .whenever (2*round.staking.computeF<votingPower ∧ round.timeout.state≠.certificateEmitted)
    (self.createTimeoutCertificate now)

def onTimeout (now : TimestampMs) (timeout : ConsensusTimeout) : Handler Node Unit := do
  let round ← Node.round
  -- A timeout of another slot or view, or after another parent, is ignored.
  if round.isPartOfConsensus self.validatorPubkey=false ∨ timeout.1.msg≠round.timeoutMessage then
    pure ()
  else do
    self.verifyTimeoutKind round.slot timeout.2
    let round ← Node.round
    if timeout∈round.timeout.requests then pure ()
    else do
      act (.countedTimeout timeout) fun round => round.insertRequest timeout
      self.countTimeouts now

def onTimeoutTick (now : TimestampMs) : Handler Node Unit := do
  let round ← Node.round
  match round.timeout.state with
  | .scheduled timestamp =>
      if timestamp≤now then do
        let timeout ← .lift (self.getTimeoutMessage round)
        self.onTimeout now timeout
        send (.broadcast (.timeout timeout))
        updateRound fun round => round.scheduleNext now
      else pure ()
  | _ => pure ()

end Consensus

end TruthSeeker
