import TruthSeeker.Consensus.RoleFollower

namespace TruthSeeker

open Outcome

namespace BFTRoundState

variable (self : BFTRoundState)

/-- The candidates that have the stake and are not bonded yet. -/
def newValidatorsToBond (candidates : List (SignedByValidator ValidatorCandidacy)) :
    List (SignedByValidator ValidatorCandidacy) :=
  candidates.filter fun v =>
    MIN_STAKE<(self.staking.getStake v.signature.validator).getD 0 &&
      !self.staking.isBonded v.signature.validator

/-- The proposal of a new slot: it bonds the candidates, and every lane pays. -/
def newProposal (candidates : List (SignedByValidator ValidatorCandidacy)) (cut : Cut)
    (timestamp : TimestampMs) : ConsensusProposal where
  slot := self.slot
  cut := cut
  stakingActions := (self.newValidatorsToBond candidates).map .bond++
    cut.map fun entry => .payFeesForDaDi entry.1 entry.2.2.1
  timestamp := timestamp
  parentHash := self.parentHash

end BFTRoundState

/-- The ticket of a timeout, which never lets the slot wait. -/
def Ticket.isTimeout : Ticket → Bool
  | .timeoutQC _ _ => true
  | _ => false

/-- A message joins the votes unless it is one of them. -/
def insertVote {T : Type} [DecidableEq T] (votes : List T) (vote : T) : List T :=
  if vote∈votes then votes else votes++[vote]

namespace Consensus

open Node

variable {PublicKey BlstSignature : Type} (self : Consensus PublicKey BlstSignature)

/-- The current proposal is sent to all validators. -/
def propose (ticket : Ticket) : Handler Node Unit := do
  updateRound fun round => round.updateLeader fun leader => { leader with step := .prepareVote }
  let round ← Node.round
  let prepare := (self.validatorPubkey,round.currentProposal,ticket,round.view)
  act (.proposed prepare) fun round => round.pushPrepare self.sha3 prepare
  send (.broadcast (.prepare round.currentProposal ticket round.view))

def createProposal (timestamp : TimestampMs) (cut : Cut) : Handler Node Unit := do
  let n ← .read id
  let proposal := n.bftRoundState.newProposal n.validatorCandidates cut timestamp
  .modify (perform (.created proposal) fun store =>
    { store with
      validatorCandidates := []
      bftRoundState := { store.bftRoundState with currentProposal := proposal } })

/-- The mempool answers with a cut, or fails to answer in time. -/
def startRound (timestamp : TimestampMs) (newCut : Option Cut) (mayDelay : Bool) :
    Handler Node Unit := do
  let round ← Node.round
  if round.leader.step≠.startNewSlot then .fail "Cannot start a new slot while in another step"
  else if round.isRoundLeader=false then do
    let leader ← .lift round.roundLeader
    .fail (s!"I ({ValidatorPublicKey.display self.validatorPubkey}) am not the leader for slot "++
      s!"{round.slot} view {round.view}, expected {ValidatorPublicKey.display leader}")
  else
    match round.leader.pendingTicket with
    | none => .fail "No ticket available for this slot"
    | some ticket => do
        updateRound fun round =>
          round.updateLeader fun leader => { leader with pendingTicket := none }
        if round.currentSlotPrepareIsPresent then
          -- The node has voted on the proposal of this slot, and so it must be reproposed.
          self.propose ticket
        else if mayDelay=true ∧ ticket.isTimeout=false ∧ newCut=some round.parentCut then do
          updateRound fun round =>
            round.updateLeader fun leader => { leader with pendingTicket := some ticket }
          send .delayedStartNewSlot
        else do
          createProposal timestamp (newCut.getD round.parentCut)
          self.propose ticket

/-- The power of the voters together with the leader's own. -/
def leaderVotingPower (round : BFTRoundState) (validators : List ValidatorPublicKey) :
    Outcome U128 := do
  let own ← round.getOwnVotingPower self.validatorPubkey
  return round.staking.computeVotingPower validators+own

def onPrepareVote (vote : PrepareVote) : Handler Node Unit := do
  let round ← Node.round
  if round.stateTag≠.leader ∨ round.leader.step≠.prepareVote then pure ()
  else if vote.msg.1≠round.currentProposal.hashed self.sha3 then
    .fail "PrepareVote has not received valid consensus proposal hash"
  else do
    act (.countedVote vote) fun round => round.updateLeader fun leader =>
      { leader with prepareVotes := insertVote leader.prepareVotes vote }
    let round ← Node.round
    let votingPower ← .lift (self.leaderVotingPower round
      (round.leader.prepareVotes.map fun s => s.signature.validator))
    .whenever (2*round.staking.computeF<votingPower) do
      let hash := round.currentProposal.hashed self.sha3
      let aggregated ← .lift (self.crypto.signAggregate (hash,(⟨⟩ : PrepareVoteMarker))
        round.leader.prepareVotes)
      updateRound fun round => round.updateLeader fun leader => { leader with step := .confirmAck }
      send (.broadcast (.confirm ⟨aggregated.signature,⟨⟩⟩ hash))

def onConfirmAck (now : TimestampMs) (ack : ConfirmAck) : Handler Node Unit := do
  let round ← Node.round
  if round.stateTag≠.leader ∨ round.leader.step≠.confirmAck then pure ()
  else if ack.msg.1≠round.currentProposal.hashed self.sha3 then
    .fail "ConfirmAck got invalid consensus proposal hash"
  else if ack∈round.leader.confirmAck then pure ()
  else do
    act (.countedAck ack) fun round => round.updateLeader fun leader =>
      { leader with confirmAck := insertVote leader.confirmAck ack }
    let round ← Node.round
    let votingPower ← .lift (self.leaderVotingPower round
      (round.leader.confirmAck.map fun s => s.signature.validator))
    .whenever (2*round.staking.computeF<votingPower) do
      let aggregated ← .lift (self.crypto.signAggregate
        (round.currentProposal.hashed self.sha3,(⟨⟩ : ConfirmAckMarker)) round.leader.confirmAck)
      let qc : CommitQC := ⟨aggregated.signature,⟨⟩⟩
      send (.broadcast (.commit qc ack.msg.1))
      .lift (round.verifyCommitQuorumCertificateAgainstCurrentProposal self.crypto.toBlst
        self.sha3 qc)
      emitCommitEvent qc
      self.advanceRound now (.commitQC qc)

end Consensus

end TruthSeeker
