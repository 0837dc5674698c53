import TruthSeeker.Consensus.RoleLeader

namespace TruthSeeker

open Outcome

/-- What a node reacts to. -/
inductive ConsensusInput where
  /-- A message under a verified header, with the draw of a node to ask. -/
  | netMessage (sender : ValidatorPublicKey) (message : ConsensusNetMessage) (draw : Nat)
  | newBlock (block : Block)
  | timeoutTick
  /-- The command to start a slot, with the mempool's answer to the query of a cut. -/
  | startNewSlot (mayDelay : Bool) (newCut : Option Cut)
  /-- The module is shut down and comes back with the store that it has saved. -/
  | restart

namespace Consensus

open Node

variable {PublicKey BlstSignature : Type} (self : Consensus PublicKey BlstSignature)

def handleNetMessage (now : TimestampMs) (draw : Nat) (sender : ValidatorPublicKey) :
    ConsensusNetMessage → Handler Node Unit
  | .prepare proposal ticket view => self.onPrepare now draw (sender,proposal,ticket,view)
  | .prepareVote vote => self.onPrepareVote vote
  | .confirm qc hint => self.onConfirm qc hint
  | .confirmAck ack => self.onConfirmAck now ack
  | .commit qc hint => self.onCommit now qc hint
  | .timeout timeout => self.onTimeout now timeout
  | .timeoutCertificate qc kind slot view => self.onTimeoutCertificate now qc kind slot view
  | .validatorCandidacy candidacy => onValidatorCandidacy candidacy
  | .syncRequest hash => onSyncRequest sender hash
  | .syncReply prepare => self.onPrepare now draw prepare

/-- A node that comes back has to catch up. -/
def rejoin (now : TimestampMs) : Handler Node Unit :=
  updateRound fun round => { round with stateTag := .joining }.scheduleNext now

def handle (now : TimestampMs) : ConsensusInput → Handler Node Unit
  | .netMessage sender message draw => self.handleNetMessage now draw sender message
  | .newBlock block => handleNodeStateEvent block
  | .timeoutTick => self.onTimeoutTick now
  | .startNewSlot mayDelay newCut => self.startRound now newCut mayDelay
  | .restart => rejoin now

/-- Errors are logged, and the node goes on. A panic ends it. -/
def next (now : TimestampMs) (input : ConsensusInput) (n : Node) : Option Node :=
  if (self.handle now input n).1.panics then none else some (self.handle now input n).2

def freshNode : Node where
  bftRoundState := BFTRoundState.default
  validatorCandidates := []
  log := []

/-- The rest of the start, once the genesis block has been processed. -/
def enterGenesis (signedBlock : SignedBlock) : Handler Node Unit := do
  updateRound fun round =>
    { round with parentHash := signedBlock.hashed self.sha3,slot := 1,view := 0 }
  let round ← Node.round
  let leader ← .lift round.roundLeader
  updateRound fun round =>
    { round with stateTag := if leader=self.validatorPubkey then .leader else .follower }
  send (.commitConsensusProposal
    ⟨round.staking,signedBlock.consensusProposal,signedBlock.certificate⟩)
  .whenever (leader=self.validatorPubkey) do
    updateRound fun round =>
      round.updateLeader fun leader => { leader with pendingTicket := some .genesis }
    send (.startNewSlot true)

def waitGenesis (block : Block) (signedBlock : SignedBlock) : Handler Node Unit := do
  .lift (ensure (block.blockHeight=0) "Non-genesis block received during consensus genesis")
  handleNodeStateEvent block
  self.enterGenesis signedBlock

/-- The nodes with which a run starts: after the genesis block, or without one. -/
inductive Start : Node → Prop where
  | genesis (block : Block) (signedBlock : SignedBlock) (n : Node)
      (h : self.waitGenesis block signedBlock freshNode=(.ok (),n)) : Start n
  | noGenesis (now : TimestampMs) (n : Node) (h : rejoin now freshNode=(.ok (),n)) : Start n

/-- The states of the runs of a node. -/
inductive Run : Node → Prop where
  | start {n : Node} (h : self.Start n) : Run n
  | step {n next : Node} {now : TimestampMs} {input : ConsensusInput} (run : Run n)
      (hn : self.next now input n=some next) : Run next

/-- The node after an input that it does not panic on. -/
def after (input : ConsensusInput) (n : Node) : Node := (self.handle 0 input n).2

variable {self} in
theorem Run.after {input : ConsensusInput} {n : Node} (run : self.Run n)
    (h : (self.handle 0 input n).1.panics=false) : self.Run (self.after input n) := by
  have next : self.next 0 input n=some (self.after input n) := by
    rw [next,h]
    rfl
  exact run.step next

end Consensus

end TruthSeeker

namespace TruthSeeker

open Outcome

namespace Node

variable (n : Node) (deed : Deed) (f : BFTRoundState → BFTRoundState)

@[simp] theorem log_perform (g : ConsensusStore → ConsensusStore) :
    (n.perform deed g).log=n.log++[⟨n.bftRoundState,deed⟩] := rfl

@[simp] theorem log_performRound :
    (n.performRound deed f).log=n.log++[⟨n.bftRoundState,deed⟩] := rfl

@[simp] theorem bftRoundState_performRound :
    (n.performRound deed f).bftRoundState=f n.bftRoundState := rfl

@[simp] theorem log_note : (n.note deed).log=n.log++[⟨n.bftRoundState,deed⟩] := rfl

@[simp] theorem bftRoundState_note : (n.note deed).bftRoundState=n.bftRoundState := rfl

@[simp] theorem log_setRound : (n.setRound f).log=n.log := rfl

@[simp] theorem bftRoundState_setRound : (n.setRound f).bftRoundState=f n.bftRoundState := rfl

/-- A prepare that the node has received or made. -/
def Known (prepare : Prepare) : Prop :=
  ∃ entry ∈ n.log,entry.deed=.handled prepare ∨ entry.deed=.proposed prepare

/-- The node has accepted a prepare for its slot and view with its current proposal. -/
def AcceptedCurrent : Prop :=
  ∃ entry ∈ n.log,∃ prepare,entry.deed=.accepted prepare ∧
    prepare.2.1=n.bftRoundState.currentProposal ∧
    prepare.2.1.slot=n.bftRoundState.slot ∧ prepare.2.2.2=n.bftRoundState.view

/-- The node is at a call of `on_prepare` whose ticket it has not processed yet. -/
def Handling (prepare : Prepare) : Prop :=
  ∃ entry ∈ n.log,entry.deed=.handled prepare ∧
    entry.round.slot=n.bftRoundState.slot ∧
    entry.round.currentProposal=n.bftRoundState.currentProposal

end Node

theorem BFTRoundState.updatePrepareQc_currentProposal (round : BFTRoundState) (slot : Slot)
    (qc : PrepareQC) : round.updatePrepareQc slot qc round.currentProposal=
      round.updateHighestSeenPrepareQc slot qc := by
  unfold updatePrepareQc updateHighestSeenPrepareQc
  split
  · next h => rw [h]
  · next h => rw [h]

/-- A prepare QC that is seen is stored with its proposal, unless one of a later slot is. -/
theorem BFTRoundState.updatePrepareQc_cases (round : BFTRoundState) (slot : Slot)
    (qc : PrepareQC) (proposal : ConsensusProposal) :
    (∃ seen,round.timeout.highestSeenPrepareQc=some seen ∧ slot<seen.1 ∧
      round.updatePrepareQc slot qc proposal=round) ∨
    (∀ seen,round.timeout.highestSeenPrepareQc=some seen → ¬slot<seen.1) ∧
      round.updatePrepareQc slot qc proposal={ round with
        timeout := { round.timeout with highestSeenPrepareQc := some (slot,qc) }
        currentProposal := proposal } := by
  unfold updatePrepareQc TimeoutRoleState.updateHighestSeenPrepareQc
  cases round.timeout.highestSeenPrepareQc with
  | none => exact Or.inr ⟨by simp,rfl⟩
  | some seen =>
    by_cases later : slot<seen.1
    · exact Or.inl ⟨seen,rfl,later,by simp only [if_pos later]⟩
    · exact Or.inr ⟨by simpa using later,by simp only [if_neg later]⟩

section
variable (round : BFTRoundState) (slot : Slot) (qc : PrepareQC) (proposal : ConsensusProposal)

@[simp] theorem BFTRoundState.updatePrepareQc_staking :
    (round.updatePrepareQc slot qc proposal).staking=round.staking := by
  unfold updatePrepareQc
  split <;> rfl

@[simp] theorem BFTRoundState.updatePrepareQc_timeoutMessage :
    (round.updatePrepareQc slot qc proposal).timeoutMessage=round.timeoutMessage := by
  unfold updatePrepareQc
  split <;> rfl

@[simp] theorem BFTRoundState.updatePrepareQc_leader :
    (round.updatePrepareQc slot qc proposal).leader=round.leader := by
  unfold updatePrepareQc
  split <;> rfl

@[simp] theorem BFTRoundState.updatePrepareQc_stateTag :
    (round.updatePrepareQc slot qc proposal).stateTag=round.stateTag := by
  unfold updatePrepareQc
  split <;> rfl

@[simp] theorem BFTRoundState.updatePrepareQc_slot :
    (round.updatePrepareQc slot qc proposal).slot=round.slot := by
  unfold updatePrepareQc
  split <;> rfl

@[simp] theorem BFTRoundState.updatePrepareQc_view :
    (round.updatePrepareQc slot qc proposal).view=round.view := by
  unfold updatePrepareQc
  split <;> rfl

@[simp] theorem BFTRoundState.updatePrepareQc_follower :
    (round.updatePrepareQc slot qc proposal).follower=round.follower := by
  unfold updatePrepareQc
  split <;> rfl

@[simp] theorem BFTRoundState.updatePrepareQc_requests :
    (round.updatePrepareQc slot qc proposal).timeout.requests=round.timeout.requests := by
  obtain ⟨_,_,_,same⟩|⟨_,stored⟩ := round.updatePrepareQc_cases slot qc proposal
  · rw [same]
  · rw [stored]

end

/-- The tickets that end the slot, and with it commit the current proposal. -/
def Ticket.endsSlot : Ticket → Bool
  | .commitQC _ | .forcedCommitQc => true
  | .timeoutQC _ _ | .genesis => false

/-- The proposal that a deed commits. -/
def Deed.commits : Deed → Option ConsensusProposal
  | .emittedCommit committed => some committed.consensusProposal
  | _ => none

/-- The proposal of the last commit event. -/
def Node.lastCommitted (n : Node) : Option ConsensusProposal :=
  n.log.reverse.findSome? fun entry => entry.deed.commits

namespace Node

variable (n : Node) (deed : Deed) (f : BFTRoundState → BFTRoundState)

theorem lastCommitted_of_log {n m : Node} {entry : Entry} (h : m.log=n.log++[entry]) :
    m.lastCommitted=entry.deed.commits.or n.lastCommitted := by
  unfold lastCommitted
  rw [h,List.reverse_append,List.reverse_singleton,List.singleton_append,List.findSome?_cons]
  cases entry.deed.commits <;> rfl

@[simp] theorem lastCommitted_performRound :
    (n.performRound deed f).lastCommitted=deed.commits.or n.lastCommitted :=
  lastCommitted_of_log (n.log_performRound deed f)

@[simp] theorem lastCommitted_note :
    (n.note deed).lastCommitted=deed.commits.or n.lastCommitted :=
  lastCommitted_of_log (n.log_note deed)

@[simp] theorem lastCommitted_setRound : (n.setRound f).lastCommitted=n.lastCommitted := rfl

end Node

namespace Consensus

variable {PublicKey BlstSignature : Type} (self : Consensus PublicKey BlstSignature)

section Checks
variable (round : BFTRoundState)

/-- The certificate of prepare votes for the proposal is verified. -/
def VerifiesPrepareQc (proposal : ConsensusProposal) (qc : PrepareQC) : Prop :=
  round.verifyQuorumCertificate self.crypto.toBlst
    (proposal.hashed self.sha3,(⟨⟩ : PrepareVoteMarker)) qc=.ok ()

/-- A confirmation that passes the checks of `on_confirm`, at a node that takes part in the
consensus. -/
def PassesConfirm (qc : PrepareQC) (proposalHashHint : ConsensusProposalHash) : Prop :=
  round.stateTag=.follower ∧ proposalHashHint=round.currentProposal.hashed self.sha3 ∧
    self.VerifiesPrepareQc round round.currentProposal qc ∧
    round.isPartOfConsensus self.validatorPubkey=true

/-- `verify_tc` accepts the certificate for the slot and view. -/
def VerifiesTc (qc : TimeoutQC) (kind : TCKind) (slot : Slot) (view : View) : Prop :=
  round.verifyQuorumCertificate self.crypto.toBlst
      (slot,view,round.parentHash,(⟨⟩ : ConsensusTimeoutMarker)) qc=.ok () ∧
    match kind with
    | .nilProposal => True
    | .prepareQC prepareQc proposal =>
        proposal.slot=slot ∧ self.VerifiesPrepareQc round proposal prepareQc

/-- The leader has more than two thirds of the power behind a certificate of votes. -/
def Certifies {Marker : Type} [Borsh Marker] (marker : Marker)
    (votes : List (SignedByValidator (ConsensusProposalHash × Marker)))
    (qc : QuorumCertificate Marker) : Prop :=
  votes≠[] ∧ ∃ power signed,self.leaderVotingPower round (votes.map fun s => s.signature.validator)=.ok power ∧
    2*round.staking.computeF<power ∧
    self.crypto.signAggregate (round.currentProposal.hashed self.sha3,marker) votes=.ok signed ∧
    qc=⟨signed.signature,marker⟩

end Checks

/-- The node is at a call of `on_confirm` for the proposal that has passed the checks. -/
def ConfirmedCurrent (n : Node) (hash : ConsensusProposalHash) : Prop :=
  ∃ entry ∈ n.log,∃ qc,entry.deed=.handledConfirm qc hash ∧
    self.PassesConfirm entry.round qc hash ∧
    entry.round.slot=n.bftRoundState.slot ∧ entry.round.view=n.bftRoundState.view

/-- When the node puts a message on its bus. -/
def Sends (n : Node) : Sent → Prop
  | .message _ (.prepareVote vote) =>
      vote.msg.1=n.bftRoundState.currentProposal.hashed self.sha3 ∧ n.AcceptedCurrent
  | .message _ (.confirmAck ack) => self.ConfirmedCurrent n ack.msg.1
  | .broadcast (.confirm qc hash) =>
      hash=n.bftRoundState.currentProposal.hashed self.sha3 ∧
        self.validatorPubkey ∈ n.bftRoundState.staking.bonded ∧
        self.Certifies n.bftRoundState ⟨⟩ n.bftRoundState.leader.prepareVotes qc
  | .broadcast (.commit qc hash) =>
      hash=n.bftRoundState.currentProposal.hashed self.sha3 ∧
        self.validatorPubkey ∈ n.bftRoundState.staking.bonded ∧
        self.Certifies n.bftRoundState ⟨⟩ n.bftRoundState.leader.confirmAck qc
  | .commitConsensusProposal _ => False
  | _ => True

/-- A certificate of a timeout that the node acts on: one that `verify_tc` accepts, or one that
the node has put together itself for the same round. -/
def TcInHand (n : Node) (qc : TimeoutQC) (kind : TCKind) : Prop :=
  self.VerifiesTc n.bftRoundState qc kind n.bftRoundState.slot n.bftRoundState.view ∨
    ∃ entry ∈ n.log,entry.deed=.certified qc kind ∧
      entry.round.slot=n.bftRoundState.slot ∧ entry.round.view=n.bftRoundState.view ∧
      entry.round.parentHash=n.bftRoundState.parentHash ∧
      entry.round.staking=n.bftRoundState.staking

/-- The validators that the received timeouts name. -/
def timeoutValidators (round : BFTRoundState) : List ValidatorPublicKey :=
  round.timeout.requests.map fun request => request.1.signature.validator

def timeoutPower (round : BFTRoundState) : U128 :=
  round.staking.computeVotingPower (timeoutValidators round)

/-- Everything that a step of a node can do, one change at a time. -/
inductive Change : Node → Node → Prop where
  | send {n : Node} (item : Sent) (h : self.Sends n item) : Change n (n.note (.sent item))
  | commit {n : Node} (qc : CommitQC)
      (h : n.bftRoundState.verifyCommitQuorumCertificateAgainstCurrentProposal
        self.crypto.toBlst self.sha3 qc=.ok ()) :
      Change n (n.note (.emittedCommit
        ⟨n.bftRoundState.staking,n.bftRoundState.currentProposal,qc.aggregate⟩))
  /-- The commit without a certificate. -/
  | forcedCommit {n : Node} (proposal : ConsensusProposal) (view : View)
      (h : ∃ entry ∈ n.log,entry.deed=.forcing proposal view) :
      Change n (n.note (.emittedCommit ⟨n.bftRoundState.staking,
        n.bftRoundState.currentProposal,Inhabited.default⟩))
  | handled {n : Node} (prepare : Prepare) : Change n (n.note (.handled prepare))
  | handledConfirm {n : Node} (qc : PrepareQC) (hash : ConsensusProposalHash) :
      Change n (n.note (.handledConfirm qc hash))
  | forcing {n : Node} (prepare : Prepare) (hh : n.Handling prepare)
      (h : n.bftRoundState.forcedBy self.sha3 prepare=true) :
      Change n (n.note (.forcing prepare.2.1 prepare.2.2.2))
  | verifiedTc {n : Node} (qc : TimeoutQC) (kind : TCKind) (slot : Slot) (view : View) :
      Change n (n.note (.verifiedTc qc kind slot view))
  | candidates {n : Node} (candidates : List (SignedByValidator ValidatorCandidacy)) :
      Change n { n with validatorCandidates := candidates }
  | staking {n : Node} (staking : Staking)
      (h : ∀ v ∈ n.bftRoundState.staking.bonded,v ∈ staking.bonded) :
      Change n (n.setRound fun round => { round with staking := staking })
  | schedule {n : Node} (state : TimeoutState) :
      Change n (n.setRound fun round => { round with timeout := { round.timeout with state := state } })
  | retag {n : Node} (tag : StateTag)
      (h : tag=.leader → self.validatorPubkey ∈ n.bftRoundState.staking.bonded) :
      Change n (n.setRound fun round => { round with stateTag := tag })
  | push {n : Node} (prepare : Prepare) (h : n.Known prepare) :
      Change n (n.setRound fun round => round.pushPrepare self.sha3 prepare)
  | reset {n : Node} (tag : StateTag) (h : tag=n.bftRoundState.stateTag ∨ tag=.leader) :
      Change n (n.setRound fun round => { round with stateTag := tag }.reset)
  | leader {n : Node} (f : LeaderState → LeaderState)
      (h : self.validatorPubkey ∈ n.bftRoundState.staking.bonded)
      (hv : ∀ leader,(f leader).prepareVotes=leader.prepareVotes ∧
        (f leader).confirmAck=leader.confirmAck) :
      Change n (n.setRound fun round => round.updateLeader f)
  | countedVote {n : Node} (vote : PrepareVote)
      (h : self.validatorPubkey ∈ n.bftRoundState.staking.bonded) :
      Change n (n.performRound (.countedVote vote) fun round => round.updateLeader fun leader =>
        { leader with prepareVotes := insertVote leader.prepareVotes vote })
  | countedAck {n : Node} (ack : ConfirmAck)
      (h : self.validatorPubkey ∈ n.bftRoundState.staking.bonded) :
      Change n (n.performRound (.countedAck ack) fun round => round.updateLeader fun leader =>
        { leader with confirmAck := insertVote leader.confirmAck ack })
  | accepted {n : Node} (prepare : Prepare) (hk : n.Known prepare)
      (hs : prepare.2.1.slot=n.bftRoundState.slot) (hv : prepare.2.2.2=n.bftRoundState.view)
      (hl : n.bftRoundState.roundLeader=.ok prepare.1)
      (hp : n.bftRoundState.verifyPoda self.crypto.toBlst prepare.2.1=.ok ()) :
      Change n (n.performRound (.accepted prepare) fun round =>
        { round with currentProposal := prepare.2.1 })
  | created {n : Node} (proposal : ConsensusProposal)
      (h : proposal.slot=n.bftRoundState.slot) :
      Change n (n.perform (.created proposal) fun store =>
        { store with
          validatorCandidates := []
          bftRoundState := { store.bftRoundState with currentProposal := proposal } })
  | proposed {n : Node} (prepare : Prepare)
      (hp : prepare.2.1=n.bftRoundState.currentProposal)
      (hv : prepare.2.2.2=n.bftRoundState.view) :
      Change n (n.performRound (.proposed prepare) fun round => round.pushPrepare self.sha3 prepare)
  | recalled {n : Node} (proposal : ConsensusProposal)
      (h : n.bftRoundState.stateTag=.joining) (hs : n.bftRoundState.slot<proposal.slot) :
      Change n (n.performRound (.recalled proposal) fun round =>
        { round with currentProposal := proposal })
  /-- The buffered proposal is committed, up to the reset of the ticket. -/
  | joined {n : Node} (qc : CommitQC) (ht : n.bftRoundState.stateTag=.joining)
      (h : n.bftRoundState.verifyCommitQuorumCertificateAgainstCurrentProposal
        self.crypto.toBlst self.sha3 qc=.ok ()) :
      Change n (((n.performRound .joined fun round =>
        { round with slot := round.currentProposal.slot,view := 0,stateTag := .follower }).note
          (.emittedCommit ⟨n.bftRoundState.staking,n.bftRoundState.currentProposal,
            qc.aggregate⟩)).setRound BFTRoundState.reset)
  | followed {n : Node} (block : Block) (h : n.bftRoundState.stateTag=.joining) :
      Change n (n.performRound (.followed block) (Node.followBlock block))
  | seenPrepareQc {n : Node} (qc : PrepareQC) (proposal : ConsensusProposal)
      (h : self.VerifiesPrepareQc n.bftRoundState proposal qc)
      (hp : proposal=n.bftRoundState.currentProposal ∨ proposal.slot=n.bftRoundState.slot) :
      Change n (n.performRound (.seenPrepareQc n.bftRoundState.slot qc proposal) fun round =>
        round.updatePrepareQc n.bftRoundState.slot qc proposal)
  | appliedCommit {n : Node} (ticket : Ticket) (qc : Option CommitQC)
      (he : ticket.endsSlot=true)
      (hr : n.bftRoundState.timeout.requests=[])
      (h : n.lastCommitted=some n.bftRoundState.currentProposal) :
      Change n (n.performRound (.applied ticket) fun round => round.nextSlot self.sha3 qc)
  | appliedTimeout {n : Node} (qc : TimeoutQC) (kind : TCKind)
      (hr : n.bftRoundState.timeout.requests=[]) (h : self.TcInHand n qc kind) :
      Change n (n.performRound (.applied (.timeoutQC qc kind)) BFTRoundState.nextView)
  | countedTimeout {n : Node} (timeout : ConsensusTimeout)
      (h : timeout.1.msg=n.bftRoundState.timeoutMessage) :
      Change n (n.performRound (.countedTimeout timeout) fun round => round.insertRequest timeout)
  | joinedMutiny {n : Node} (timeout : ConsensusTimeout)
      (ht : self.getTimeoutMessage n.bftRoundState=.ok timeout)
      (hb : self.validatorPubkey ∈ n.bftRoundState.staking.bonded)
      (ho : self.validatorPubkey∉timeoutValidators n.bftRoundState)
      (h : n.bftRoundState.staking.computeF<timeoutPower n.bftRoundState) :
      Change n (n.performRound .joinedMutiny fun round => round.insertRequest timeout)
  | certified {n : Node} (now : TimestampMs) (qc : TimeoutQC) (kind : TCKind)
      (h : self.timeoutTicket n.bftRoundState=.ok (qc,kind))
      (hb : self.validatorPubkey ∈ n.bftRoundState.staking.bonded)
      (ho : self.validatorPubkey ∈ timeoutValidators n.bftRoundState)
      (hp : 2*n.bftRoundState.staking.computeF<timeoutPower n.bftRoundState) :
      Change n (n.performRound (.certified qc kind) fun round => round.scheduleNext now)

end Consensus

end TruthSeeker
