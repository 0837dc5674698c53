import TruthSeeker.Consensus.QuietChecks
import TruthSeeker.Consensus.StakingPaths

namespace TruthSeeker

open Outcome

/-- The texts of a subtraction that underflows and of a modulus by zero. -/
def ArithmeticFailure (text : String) : Prop :=
  text="attempt to subtract with overflow" ∨
    text="attempt to calculate the remainder with a divisor of zero"

instance : DecidablePred ArithmeticFailure := fun _ => inferInstanceAs (Decidable (_ ∨ _))

/-- `prepare_view - 1`, with the panic of an underflow in the place of a wrapped value. -/
def previousView (view : View) : Outcome View :=
  if view=0 then Outcome.panic "attempt to subtract with overflow" else .ok (view-1)

namespace Consensus

open Node

variable {PublicKey BlstSignature : Type} (self : Consensus PublicKey BlstSignature)

section Checked

/-- The end of `verify_and_process_tc_ticket`, for the current slot. -/
def verifyCurrentTcChecked (now : TimestampMs) (qc : TimeoutQC) (kind : TCKind)
    (proposal : ConsensusProposal) (view : View) : Handler Node TicketVerifyAndProcess := do
  let round ← Node.round
  .lift (ensure (proposal.slot=round.slot)
    (s!"Timeout Certificate slot {proposal.slot} view {view} is not the current slot "++
      s!"{round.slot}"))
  let previous ← .lift (previousView view)
  self.verifyTc qc kind round.slot previous
  .whenever (view=round.view+1) (self.advanceRound now (.timeoutQC qc kind))
  return .processed

/-- `verify_and_process_tc_ticket` with its subtraction checked. -/
def verifyAndProcessTcTicketChecked (now : TimestampMs) (qc : TimeoutQC) (kind : TCKind)
    (proposal : ConsensusProposal) (view : View) : Handler Node TicketVerifyAndProcess := do
  let round ← Node.round
  if round.ticketInReach proposal=false then return .notProcessed
  else do
    .lift (self.ticketMatches proposal kind)
    .whenever (round.forcesCommit self.sha3 proposal=true) (self.forceCommit now proposal view)
    self.verifyCurrentTcChecked now qc kind proposal view

def processTicketChecked (now : TimestampMs) (proposal : ConsensusProposal) (view : View) :
    Ticket → Handler Node TicketVerifyAndProcess
  | .timeoutQC qc kind => .context "Processing TC ticket"
      (self.verifyAndProcessTcTicketChecked now qc kind proposal view)
  | ticket => self.processTicket now proposal view ticket

def followPrepareChecked (now : TimestampMs) (draw : Nat) (prepare : Prepare) :
    Handler Node (Option Prepare) := do
  let round ← Node.round
  if prepare.2.1.slot< round.slot then return none
  else do
    match ← self.processTicketChecked now prepare.2.1 prepare.2.2.2 prepare.2.2.1 with
    | .notProcessed => do
        self.bufferPrepareMessageAndFetchMissingParent draw prepare
        return none
    | .processed => self.acceptPrepare prepare

def onPrepareOnceChecked (now : TimestampMs) (draw : Nat) (prepare : Prepare) :
    Handler Node (Option Prepare) := do
  remember (.handled prepare)
  let round ← Node.round
  if round.stateTag≠.joining then self.followPrepareChecked now draw prepare
  else if round.expectsPrepare prepare.2.1 prepare.2.2.2 then do
    updateRound fun round => { round with stateTag := .follower }
    self.followPrepareChecked now draw prepare
  else do
    updateRound fun round => round.pushPrepare self.sha3 prepare
    return none

def onPrepareNestedChecked (now : TimestampMs) (draw : Nat) : Nat → Prepare → Handler Node Unit
  | 0,_ => .lift (Outcome.panic "stack overflow")
  | depth+1,prepare => do
      match ← self.onPrepareOnceChecked now draw prepare with
      | none => pure ()
      | some next => onPrepareNestedChecked now draw depth next

/-- `on_prepare` with that subtraction checked. Its additions wrap, as they do without. -/
def onPrepareChecked (now : TimestampMs) (draw : Nat) (prepare : Prepare) : Handler Node Unit :=
  self.onPrepareNestedChecked now draw self.stackDepth prepare

end Checked

section Guards
variable {self} {now : TimestampMs} {draw : Nat} {prepare : Prepare}

theorem previousView_of_not_fails {view : View}
    (h : ¬(previousView view).Fails ArithmeticFailure) : previousView view=.ok (view-1) := by
  unfold previousView at h ⊢
  split_ifs at h ⊢ with first
  · exact absurd (fails_panic.mpr (Or.inl rfl)) h
  · rfl

theorem guards_verifyAndProcessTcTicket {qc : TimeoutQC} {kind : TCKind}
    {proposal : ConsensusProposal} {view : View} :
    Handler.Guards ArithmeticFailure
      (self.verifyAndProcessTcTicketChecked now qc kind proposal view)
      (self.verifyAndProcessTcTicket now qc kind proposal view) := by
  refine .bind .refl fun round => .ite .refl ?_
  refine .bind .refl fun _ => .bind .refl fun _ => .bind .refl fun round => ?_
  exact .bind .refl fun _ => .check previousView_of_not_fails .refl

theorem guards_followPrepare : Handler.Guards ArithmeticFailure
    (self.followPrepareChecked now draw prepare) (self.followPrepare now draw prepare) := by
  refine .bind .refl fun round => .ite .refl (.bind ?_ fun _ => ?_)
  · obtain ⟨sender,proposal,ticket,view⟩ := prepare
    cases ticket with
    | timeoutQC qc kind => exact .context guards_verifyAndProcessTcTicket
    | genesis => exact .refl
    | commitQC qc => exact .refl
    | forcedCommitQc => exact .refl
  · exact .refl

theorem guards_onPrepareOnce : Handler.Guards ArithmeticFailure
    (self.onPrepareOnceChecked now draw prepare) (self.onPrepareOnce now draw prepare) :=
  .bind .refl fun _ => .bind .refl fun _ => .ite guards_followPrepare
    (.ite (.bind .refl fun _ => guards_followPrepare) .refl)

theorem guards_onPrepareNested {depth : Nat} : Handler.Guards ArithmeticFailure
    (self.onPrepareNestedChecked now draw depth prepare)
    (self.onPrepareNested now draw depth prepare) := by
  induction depth generalizing prepare with
  | zero => exact .refl
  | succ depth ih =>
    refine .bind guards_onPrepareOnce fun next => ?_
    cases next with
    | none => exact .refl
    | some next => exact ih

/-- Unless its arithmetic fails, the check changes nothing. -/
theorem guards_onPrepare : Handler.Guards ArithmeticFailure
    (self.onPrepareChecked now draw prepare) (self.onPrepare now draw prepare) :=
  guards_onPrepareNested

end Guards

section Condition

/-- A candidacy can be sent, or the node has none to send. -/
def Announces (round : BFTRoundState) : Prop :=
  round.isPartOfConsensus self.validatorPubkey=true ∨
    ¬MIN_STAKE<(round.staking.getStake self.validatorPubkey).getD 0 ∨
    ∃ encoded,toVec (⟨self.config.publicAddress⟩ : ValidatorCandidacy)=.ok encoded

/-- A prepare of the current round, whose leader is looked for while nobody is bonded. -/
def SeeksAmongNone (round : BFTRoundState) (proposal : ConsensusProposal) (view : View) : Prop :=
  proposal.slot=round.slot ∧ view=round.view ∧ round.staking.bonded=[]

/-- The current proposal is committed without a certificate: the next slot has no leader as
nobody is bonded, or it is reached with a prepare of view zero. -/
def ForcesInto (round : BFTRoundState) (view : View) : Prop :=
  round.staking.bonded=[] ∧ round.staking.fees.pendingFees=[] ∧
      round.currentProposal.stakingActions=[] ∨
    view=0 ∧ round.staking.Admits round.currentProposal.stakingActions ∧ self.Announces round

/-- The tickets with which a prepare makes the arithmetic fail. -/
def TicketTrips (round : BFTRoundState) (proposal : ConsensusProposal) (view : View) :
    Ticket → Prop
  | .genesis => round.slot=1 ∧ SeeksAmongNone round proposal view
  | .commitQC qc => round.follower.bufferedQuorumCertificate=some qc ∧
      SeeksAmongNone round proposal view
  | .timeoutQC _ kind => self.ticketMatches proposal kind=.ok () ∧
      (proposal.slot=round.slot ∧ view=0 ∨
        round.forcesCommit self.sha3 proposal=true ∧
          round.currentProposalChangesVotingPower=false ∧ self.ForcesInto round view)
  | .forcedCommitQc => False

/-- A prepare that makes the arithmetic of `on_prepare` fail, before it goes on with another
one. -/
def Trips (round : BFTRoundState) (prepare : Prepare) : Prop :=
  (round.stateTag=.joining → round.expectsPrepare prepare.2.1 prepare.2.2.2=true) ∧
    ¬prepare.2.1.slot< round.slot ∧
    self.TicketTrips round prepare.2.1 prepare.2.2.2 prepare.2.2.1

end Condition

end Consensus

namespace Staking

variable {staking : Staking} {actions : List ConsensusStakingAction}

theorem not_fails_distributeAll {bonded : List ValidatorPublicKey} {balances : Balances}
    {pending : List (ValidatorPublicKey × LaneBytesSize)} :
    ¬(Fees.distributeAll bonded pending balances).1.Fails ArithmeticFailure := by
  induction pending generalizing balances with
  | nil => exact fails_ok.mp
  | cons entry pending ih =>
    unfold Fees.distributeAll Fees.distributeOne
    cases balances[entry.1]? with
    | none => exact fails_err.mp
    | some state =>
      simp only
      split_ifs
      · exact fails_err.mp
      · have other : ¬ArithmeticFailure "attempt to divide by zero" := by decide
        exact fun fails => other (fails_panic.mp fails)
      · exact ih

theorem not_fails_applyAction {action : ConsensusStakingAction} :
    ¬(staking.applyAction action).1.Fails ArithmeticFailure := by
  cases action with
  | payFeesForDaDi laneId cumulSize => exact fails_ok.mp
  | bond candidate =>
    show ¬(staking.applied (staking.bond candidate.signature.validator)).1.Fails _
    cases staking.bond candidate.signature.validator with
    | error e => exact fails_err.mp
    | ok next => exact fails_ok.mp

theorem not_fails_applyActions :
    ¬(applyActions actions staking).1.Fails ArithmeticFailure := by
  have each : ¬(processEach applyAction actions staking).1.Fails ArithmeticFailure := by
    induction actions generalizing staking with
    | nil => exact fails_ok.mp
    | cons action actions ih =>
      unfold processEach
      split
      · exact ih
      · exact not_fails_applyAction
  unfold applyActions
  split
  · exact not_fails_distributeAll
  · exact each

theorem applyActions_unbonded (h : bondsOf actions=[]) :
    ∃ fees,(applyActions actions staking).2={ staking with fees := fees } := by
  unfold applyActions
  rw [processEach_of_unbonded h]
  exact ⟨_,rfl⟩

theorem bondsOf_eq_nil_iff {round : BFTRoundState} :
    bondsOf round.currentProposal.stakingActions=[] ↔
      round.currentProposalChangesVotingPower=false := by
  unfold bondsOf BFTRoundState.currentProposalChangesVotingPower
  rw [List.filterMap_eq_nil_iff,List.any_eq_false]
  constructor
  · intro h action ha
    have unbonding := h action ha
    cases action <;> simp_all
  · intro h action ha
    have unbonding := h action ha
    cases action <;> simp_all

/-- Without a bonded validator, no fee can be distributed. -/
theorem applyActions_of_nobody (hb : staking.bonded=[]) (h : bondsOf actions=[]) :
    (applyActions actions staking).1=.ok () ↔ staking.fees.pendingFees=[] ∧ actions=[] := by
  have undistributed {pending : List (ValidatorPublicKey × LaneBytesSize)} {balances : Balances} :
      (Fees.distributeAll [] pending balances).1=.ok () ↔ pending=[] := by
    cases pending with
    | nil => exact ⟨fun _ => rfl,fun _ => rfl⟩
    | cons entry pending =>
      simp only [reduceCtorEq,iff_false]
      unfold Fees.distributeAll Fees.distributeOne
      cases balances[entry.1]? with
      | none => simp
      | some state =>
        simp only
        split_ifs <;> simp_all
  have pays : paysOf actions=[] ↔ actions=[] := by
    constructor
    · intro none
      rw [List.eq_nil_iff_forall_not_mem]
      intro action ha
      have paid := List.filterMap_eq_nil_iff.mp none action ha
      have bonded := List.filterMap_eq_nil_iff.mp h action ha
      cases action with
      | bond candidate => cases bonded
      | payFeesForDaDi laneId cumulSize => cases paid
    · rintro rfl
      rfl
  unfold applyActions
  rw [processEach_of_unbonded h]
  show (Fees.distributeAll staking.bonded (staking.fees.pendingFees++paysOf actions)
    staking.fees.balances).1=.ok () ↔ _
  rw [hb,undistributed,List.append_eq_nil_iff,pays]

end Staking

namespace BFTRoundState

variable {round : BFTRoundState}

theorem roundLeader_of_nobody (h : round.staking.bonded=[]) :
    round.roundLeader=
      Outcome.panic "attempt to calculate the remainder with a divisor of zero" := by
  unfold roundLeader
  rw [h]
  rfl

/-- The choice of the leader fails exactly if nobody is bonded. -/
theorem fails_roundLeader :
    round.roundLeader.Fails ArithmeticFailure ↔ round.staking.bonded=[] := by
  constructor
  · intro fails
    by_contra somebody
    obtain ⟨leader,found⟩ := exists_roundLeader_iff.mpr somebody
    rw [found] at fails
    exact fails_ok.mp fails
  · intro nobody
    rw [roundLeader_of_nobody nobody]
    exact fails_panic.mpr (Or.inr rfl)

theorem not_fails_missingParent {current missing : ConsensusProposalHash} {fuel : Nat} :
    ¬(round.missingParent current fuel missing).Fails ArithmeticFailure := by
  induction fuel generalizing missing with
  | zero =>
    have other : ¬ArithmeticFailure "the parents of the buffered prepares have no end" := by decide
    exact fun fails => other (fails_panic.mp fails)
  | succ fuel ih =>
    unfold missingParent
    split
    · exact fails_ok.mp
    · split_ifs
      · exact fails_ok.mp
      · exact ih

end BFTRoundState

namespace Consensus

open Handler

variable {PublicKey BlstSignature : Type} {self : Consensus PublicKey BlstSignature}
  {now : TimestampMs} {draw : Nat} {n m : Node} {ticket : Ticket} {prepare : Prepare}
  {proposal : ConsensusProposal} {view : View}

section Rounds

theorem ne_nil_of_subset {before after : List ValidatorPublicKey} (h : before≠[])
    (hs : ∀ v ∈ before,v ∈ after) : after≠[] := by
  obtain ⟨v,hv⟩ := List.exists_mem_of_ne_nil before h
  exact List.ne_nil_of_mem (hs v hv)

theorem avoids_updateStaking {actions : List ConsensusStakingAction} :
    Avoids ArithmeticFailure n (Node.updateStaking (Staking.applyActions actions)) fun _ m =>
      m.bftRoundState.staking=(Staking.applyActions actions n.bftRoundState.staking).2 where
  safe := Staking.not_fails_applyActions
  value _ _ hm := by
    obtain ⟨_,rfl⟩ := Prod.mk.inj hm
    rfl

theorem avoids_finishSlot {qc : Option CommitQC} :
    Avoids ArithmeticFailure n (self.finishSlot ticket qc) fun _ m => m.bftRoundState.staking=
      (Staking.applyActions n.bftRoundState.currentProposal.stakingActions
        n.bftRoundState.staking).2 := by
  refine (Avoids.read _).bind ?_
  rintro round m ⟨rfl,rfl⟩
  refine (Avoids.modify _).bind ?_
  rintro _ _ rfl
  exact avoids_updateStaking

/-- Who is bonded stays bonded. -/
theorem avoids_useTicket (hb : n.bftRoundState.staking.bonded≠[]) :
    Avoids ArithmeticFailure n (self.useTicket ticket)
      fun _ m => m.bftRoundState.staking.bonded≠[] := by
  have kept {actions : List ConsensusStakingAction} {t : Node}
      (ht : t.bftRoundState.staking=(Staking.applyActions actions n.bftRoundState.staking).2) :
      t.bftRoundState.staking.bonded≠[] := by
    rw [ht]
    exact ne_nil_of_subset hb fun v hv => Staking.mem_bonded_applyActions hv
  cases ticket with
  | genesis => exact .fail _
  | commitQC qc => exact avoids_finishSlot.mono fun _ _ => kept
  | forcedCommitQc => exact avoids_finishSlot.mono fun _ _ => kept
  | timeoutQC qc kind =>
    refine (Avoids.modify _).mono ?_
    rintro _ _ rfl
    exact hb

theorem avoids_enterRound (hb : n.bftRoundState.staking.bonded≠[]) :
    Avoids ArithmeticFailure n (self.enterRound now)
      fun _ m => m.bftRoundState.staking=n.bftRoundState.staking := by
  refine (Avoids.read _).bind ?_
  rintro round m ⟨rfl,rfl⟩
  refine (Avoids.lift fun fails => hb (BFTRoundState.fails_roundLeader.mp fails)).bind ?_
  rintro leader m ⟨_,rfl⟩
  apply Avoids.ite
  · intro _
    refine (Avoids.modify _).mono ?_
    rintro _ _ rfl
    rfl
  · intro _
    refine (Avoids.modify _).mono ?_
    rintro _ _ rfl
    rfl

/-- As long as somebody is bonded, the next round has a leader. -/
theorem avoids_advanceRound (hb : n.bftRoundState.staking.bonded≠[]) :
    Avoids ArithmeticFailure n (self.advanceRound now ticket)
      fun _ m => m.bftRoundState.staking.bonded≠[] := by
  have applied : Avoids ArithmeticFailure n (self.applyTicket now ticket)
      fun _ m => m.bftRoundState.staking.bonded≠[] := by
    refine (Avoids.read _).bind ?_
    rintro round m ⟨rfl,rfl⟩
    apply Avoids.ite
    · intro _
      exact .fail _
    intro _
    refine (Avoids.modify _).bind ?_
    rintro _ _ rfl
    have somebody : (m.setRound BFTRoundState.reset).bftRoundState.staking.bonded≠[] := hb
    refine (avoids_useTicket somebody).bind ?_
    intro _ t ht
    refine (avoids_enterRound ht).mono ?_
    intro _ u hu
    rw [hu]
    exact ht
  refine applied.bind ?_
  intro _ t ht
  refine avoids_beginRound.mono ?_
  intro _ u hu
  rw [hu]
  exact ht

theorem avoids_bufferPrepare : Avoids ArithmeticFailure n
    (self.bufferPrepareMessageAndFetchMissingParent draw prepare) fun _ _ => True := by
  refine (Avoids.read _).bind fun round _ _ => ?_
  have pushed {m : Node} {c : Prop} [Decidable c] {f : BFTRoundState → BFTRoundState} :
      Avoids ArithmeticFailure m (Handler.whenever c (Node.updateRound f)) fun _ _ => True :=
    Avoids.whenever (fun _ => (Avoids.modify _).any) fun _ => trivial
  refine pushed.bind fun _ _ _ => ?_
  refine (Avoids.read _).bind fun round _ _ => ?_
  refine (Avoids.lift BFTRoundState.not_fails_missingParent).bind fun missing _ _ => ?_
  cases missing with
  | none => exact .pure trivial
  | some missing =>
    dsimp only
    split
    · exact (Avoids.modify _).any
    · exact (Avoids.modify _).any

end Rounds

section Accepting

/-- The prepare of the current round is the one whose leader is looked for. -/
theorem fails_acceptPrepare : (self.acceptPrepare prepare n).1.Fails ArithmeticFailure ↔
    SeeksAmongNone n.bftRoundState prepare.2.1 prepare.2.2.2 := by
  have checked : (self.acceptPrepare prepare n).1.Fails ArithmeticFailure ↔ _ ∧ _ ∧ _ :=
    fails_ensure_bind.trans (and_congr_right fun _ => fails_ensure_bind)
  rw [checked]
  refine and_congr_right fun _ => and_congr_right fun _ => ?_
  constructor
  · intro fails
    by_contra somebody
    have leads : ¬n.bftRoundState.roundLeader.Fails ArithmeticFailure :=
      fun fails => somebody (BFTRoundState.fails_roundLeader.mp fails)
    refine Avoids.safe (Q := fun _ _ => True) ?_ fails
    refine (Avoids.lift leads).bind ?_
    rintro leader m ⟨_,rfl⟩
    refine (Avoids.quiet Quiet.ensure).bind fun _ _ _ => ?_
    refine (Avoids.quiet BFTRoundState.quiet_verifyPoda).bind fun _ _ _ => ?_
    refine avoids_verifyStakingActions.bind fun _ _ _ => ?_
    refine (Avoids.quiet BFTRoundState.quiet_verifyTimestamp).bind fun _ _ _ => ?_
    refine (Avoids.modify _).bind fun _ _ _ => (Avoids.modify _).bind fun _ _ _ => ?_
    refine (Avoids.read _).bind fun round _ _ => ?_
    split
    · exact .pure trivial
    · exact avoids_votePrepare.bind fun _ _ _ => .pure trivial
  · intro nobody
    exact fails_bind.mpr (Or.inl (BFTRoundState.fails_roundLeader.mpr nobody))

end Accepting

section Forcing

theorem fails_enterRound : (self.enterRound now m).1.Fails ArithmeticFailure ↔
    m.bftRoundState.staking.bonded=[] := by
  constructor
  · intro fails
    by_contra somebody
    exact (avoids_enterRound somebody).safe fails
  · intro nobody
    refine fails_read_bind.mpr (fails_bind.mpr (Or.inl ?_))
    exact BFTRoundState.fails_roundLeader.mpr nobody

theorem staking_enterRound :
    (self.enterRound now m).2.bftRoundState.staking=m.bftRoundState.staking := by
  unfold enterRound
  simp only [Handler.bind_apply,Node.round,Handler.read,Handler.lift]
  cases m.bftRoundState.roundLeader with
  | error fault => rfl
  | ok leader =>
    simp only
    split_ifs <;> rfl

theorem staking_applyTicket (he : ticket.endsSlot=true)
    (ht : n.bftRoundState.stateTag≠.joining) :
    (self.applyTicket now ticket n).2.bftRoundState.staking=
      (Staking.applyActions n.bftRoundState.currentProposal.stakingActions
        n.bftRoundState.staking).2 := by
  obtain ⟨t,used,staking,_⟩ := useTicket_eq self n he
  rw [applyTicket_eq ht,← staking]
  rcases hr : (Staking.applyActions n.bftRoundState.currentProposal.stakingActions
      n.bftRoundState.staking).1 with fault | u
  · rw [hr] at used
    rw [Handler.bind_of_error used]
  · rw [hr] at used
    rw [Handler.bind_of_ok used]
    exact staking_enterRound

/-- After a commit without a certificate, the node waits for the others, and sends a candidacy
at most. -/
theorem beginRound_forced : ((self.beginRound .forcedCommitQc m).1=.ok () ↔
      self.Announces m.bftRoundState) ∧
    (self.beginRound .forcedCommitQc m).2.bftRoundState=m.bftRoundState := by
  have waits : self.beginRound .forcedCommitQc m=
      (if m.bftRoundState.isPartOfConsensus self.validatorPubkey then pure ()
        else if MIN_STAKE<(m.bftRoundState.staking.getStake self.validatorPubkey).getD 0 then
          self.sendCandidacy
        else pure () : Handler Node Unit) m := by
    show (if _ ∧ _ ∧ Ticket.forcedCommitQc≠.forcedCommitQc then _ else _ : Handler Node Unit) m=_
    rw [if_neg fun h => h.2.2 rfl]
  rw [waits]
  unfold Announces
  split_ifs with part stake
  · exact ⟨⟨fun _ => Or.inl part,fun _ => rfl⟩,rfl⟩
  · unfold sendCandidacy BlstCrypto.sign
    simp only [Handler.bind_apply,Handler.lift]
    cases toVec (⟨self.config.publicAddress⟩ : ValidatorCandidacy) with
    | error fault => simpa [part] using stake
    | ok encoded => exact ⟨⟨fun _ => Or.inr (Or.inr ⟨encoded,rfl⟩),fun _ => rfl⟩,rfl⟩
  · exact ⟨⟨fun _ => Or.inr (Or.inl stake),fun _ => rfl⟩,rfl⟩

/-- The commit without a certificate bonds nobody. -/
theorem fails_advanceRound_forced (ht : n.bftRoundState.stateTag≠.joining)
    (hu : bondsOf n.bftRoundState.currentProposal.stakingActions=[]) :
    (self.advanceRound now .forcedCommitQc n).1.Fails ArithmeticFailure ↔
      n.bftRoundState.staking.bonded=[] ∧ n.bftRoundState.staking.fees.pendingFees=[] ∧
        n.bftRoundState.currentProposal.stakingActions=[] := by
  by_cases nobody : n.bftRoundState.staking.bonded=[]
  · obtain ⟨t,used,staking,_⟩ := @useTicket_eq _ _ .forcedCommitQc self n rfl
    obtain ⟨fees,left⟩ := @Staking.applyActions_unbonded n.bftRoundState.staking _ hu
    have still : t.bftRoundState.staking.bonded=[] := by
      rw [staking,left]
      exact nobody
    have begins : ¬∃ a t,(do
          self.useTicket .forcedCommitQc
          self.enterRound now : Handler Node Unit) (n.setRound BFTRoundState.reset)=(.ok a,t) ∧
        (self.beginRound .forcedCommitQc t).1.Fails ArithmeticFailure :=
      fun ⟨_,_,_,fails⟩ => avoids_beginRound.safe fails
    rw [advanceRound_eq ht,← Staking.applyActions_of_nobody nobody hu,and_iff_right nobody]
    unfold startOver
    rw [fails_bind,or_iff_left begins,fails_bind,used]
    constructor
    · rintro (fails|⟨_,u,same,_⟩)
      · exact absurd fails Staking.not_fails_applyActions
      · exact (Prod.mk.inj same).1
    · intro applied
      exact Or.inr ⟨(),t,by rw [applied],fails_enterRound.mpr still⟩
  · constructor
    · intro fails
      exact absurd fails (avoids_advanceRound nobody).safe
    · rintro ⟨none,_⟩
      exact absurd none nobody

theorem advanceRound_forced (ht : n.bftRoundState.stateTag≠.joining)
    (hu : bondsOf n.bftRoundState.currentProposal.stakingActions=[]) :
    (∃ t,self.advanceRound now .forcedCommitQc n=(.ok (),t)) ↔
      n.bftRoundState.staking.Admits n.bftRoundState.currentProposal.stakingActions ∧
        self.Announces n.bftRoundState := by
  obtain ⟨applies,_⟩ := @applyTicket_cases _ _ self now n .forcedCommitQc rfl ht
  have staking := @staking_applyTicket _ _ self now n .forcedCommitQc rfl ht
  obtain ⟨fees,left⟩ := @Staking.applyActions_unbonded n.bftRoundState.staking _ hu
  rw [left] at staking
  have announces : self.Announces (self.applyTicket now .forcedCommitQc n).2.bftRoundState ↔
      self.Announces n.bftRoundState := by
    unfold Announces BFTRoundState.isPartOfConsensus
    rw [staking]
    rfl
  rw [← applies,← announces,← beginRound_forced.1,exists_eq_ok]
  exact fst_bind_eq_ok

theorem slot_advanceRound_forced {t : Node} (ht : n.bftRoundState.stateTag≠.joining)
    (h : self.advanceRound now .forcedCommitQc n=(.ok (),t)) :
    t.bftRoundState.slot=n.bftRoundState.slot+1 := by
  obtain ⟨_,u,applied,begun⟩ := bind_eq_ok.mp h
  have slot := (@applyTicket_cases _ _ self now n .forcedCommitQc rfl ht).2
  have same := (@beginRound_forced _ _ self u).2
  rw [applied] at slot
  rw [begun] at same
  exact (congrArg BFTRoundState.slot same).trans slot

/-- The commit that a ticket forces is that of the round as it is. -/
theorem forceCommit_eq (hc : n.bftRoundState.currentProposalChangesVotingPower=false) :
    ∃ m : Node,m.bftRoundState=n.bftRoundState ∧
      self.forceCommit now proposal view n=self.advanceRound now .forcedCommitQc m := by
  refine ⟨(n.note (.forcing proposal view)).note (.emittedCommit ⟨n.bftRoundState.staking,
    n.bftRoundState.currentProposal,Inhabited.default⟩),rfl,?_⟩
  show (if n.bftRoundState.currentProposalChangesVotingPower=true then _ else _ :
    Handler Node Unit) n=_
  rw [if_neg (by rw [hc]; decide)]
  rfl

theorem forceCommit_of_changes
    (hc : n.bftRoundState.currentProposalChangesVotingPower=true) :
    ∃ message,self.forceCommit now proposal view n=(.error (.err message),n) := by
  refine ⟨s!"Timeout Certificate slot {proposal.slot} view {view} is for the next slot, and "++
    "current proposal changes voting power",?_⟩
  show (if n.bftRoundState.currentProposalChangesVotingPower=true then _ else _ :
    Handler Node Unit) n=_
  rw [if_pos hc]
  rfl

theorem fails_forceCommit (ht : n.bftRoundState.stateTag≠.joining) :
    (self.forceCommit now proposal view n).1.Fails ArithmeticFailure ↔
      n.bftRoundState.currentProposalChangesVotingPower=false ∧
        n.bftRoundState.staking.bonded=[] ∧ n.bftRoundState.staking.fees.pendingFees=[] ∧
        n.bftRoundState.currentProposal.stakingActions=[] := by
  cases hc : n.bftRoundState.currentProposalChangesVotingPower with
  | true =>
    obtain ⟨message,stops⟩ := @forceCommit_of_changes _ _ self now n proposal view hc
    simp [stops,Fails]
  | false =>
    obtain ⟨m,same,step⟩ := @forceCommit_eq _ _ self now n proposal view hc
    have unbonded := Staking.bondsOf_eq_nil_iff.mpr hc
    rw [← same] at ht unbonded
    rw [step,fails_advanceRound_forced ht unbonded,same,eq_self_iff_true,true_and]

theorem forceCommit_eq_ok (ht : n.bftRoundState.stateTag≠.joining) :
    (∃ t,self.forceCommit now proposal view n=(.ok (),t)) ↔
      n.bftRoundState.currentProposalChangesVotingPower=false ∧
        n.bftRoundState.staking.Admits n.bftRoundState.currentProposal.stakingActions ∧
        self.Announces n.bftRoundState := by
  cases hc : n.bftRoundState.currentProposalChangesVotingPower with
  | true =>
    obtain ⟨message,stops⟩ := @forceCommit_of_changes _ _ self now n proposal view hc
    simp [stops]
  | false =>
    obtain ⟨m,same,step⟩ := @forceCommit_eq _ _ self now n proposal view hc
    have unbonded := Staking.bondsOf_eq_nil_iff.mpr hc
    rw [← same] at ht unbonded
    rw [step,advanceRound_forced ht unbonded,same,eq_self_iff_true,true_and]

theorem slot_forceCommit {t : Node} (ht : n.bftRoundState.stateTag≠.joining)
    (h : self.forceCommit now proposal view n=(.ok (),t)) :
    t.bftRoundState.slot=n.bftRoundState.slot+1 := by
  have unchanging := ((forceCommit_eq_ok ht).mp ⟨t,h⟩).1
  obtain ⟨m,same,step⟩ := @forceCommit_eq _ _ self now n proposal view unchanging
  rw [step] at h
  rw [← same] at ht ⊢
  exact slot_advanceRound_forced ht h

end Forcing

section Tickets

variable {qc : TimeoutQC} {kind : TCKind}

theorem avoids_verifyCurrentTc (hv : view≠0) : Avoids ArithmeticFailure n
    (self.verifyCurrentTcChecked now qc kind proposal view)
    fun _ m => m.bftRoundState.staking.bonded≠[] := by
  refine (Avoids.read _).bind ?_
  rintro round m ⟨rfl,rfl⟩
  refine (Avoids.quiet Quiet.ensure).bind ?_
  rintro _ m ⟨_,rfl⟩
  have positive : ¬(previousView view).Fails ArithmeticFailure := by
    rw [previousView,if_neg hv]
    exact fails_ok.mp
  refine (Avoids.lift positive).bind ?_
  rintro previous m ⟨_,rfl⟩
  refine avoids_verifyTc.bind ?_
  intro _ t somebody
  have advanced {c : Prop} [Decidable c] : Avoids ArithmeticFailure t
      (Handler.whenever c (self.advanceRound now (.timeoutQC qc kind)))
      fun _ u => u.bftRoundState.staking.bonded≠[] :=
    Avoids.whenever (fun _ => avoids_advanceRound somebody) fun _ => somebody
  exact advanced.bind fun _ _ later => .pure later

/-- The certificate of a prepare of view zero would be of a view before it. -/
theorem fails_verifyCurrentTc :
    (self.verifyCurrentTcChecked now qc kind proposal view n).1.Fails ArithmeticFailure ↔
      proposal.slot=n.bftRoundState.slot ∧ view=0 := by
  have checked : (self.verifyCurrentTcChecked now qc kind proposal view n).1.Fails
      ArithmeticFailure ↔ _ ∧ _ := fails_ensure_bind
  constructor
  · intro fails
    refine ⟨(checked.mp fails).1,?_⟩
    by_contra later
    exact (avoids_verifyCurrentTc later).safe fails
  · rintro ⟨slot,rfl⟩
    refine checked.mpr ⟨slot,fails_bind.mpr (Or.inl ?_)⟩
    exact fails_panic.mpr (Or.inl rfl)

theorem bonded_of_verifyCurrentTc {result : TicketVerifyAndProcess}
    (h : self.verifyCurrentTcChecked now qc kind proposal view n=(.ok result,m)) :
    m.bftRoundState.staking.bonded≠[] := by
  by_cases first : view=0
  · obtain ⟨round,_,_,rest⟩ := bind_eq_ok.mp h
    obtain ⟨_,_,_,rest⟩ := bind_eq_ok.mp rest
    obtain ⟨previous,_,checked,_⟩ := bind_eq_ok.mp rest
    rw [Handler.lift,previousView,if_pos first] at checked
    cases checked
  · exact (avoids_verifyCurrentTc first).value _ _ h

theorem quiet_ticketMatches : Quiet (self.ticketMatches proposal kind) := by
  cases kind with
  | nilProposal => exact Quiet.of_ok
  | prepareQC prepareQc prepared => exact Quiet.ensure

theorem ticketInReach_of_slot {round : BFTRoundState} (h : proposal.slot=round.slot) :
    round.ticketInReach proposal=true := by
  simp [BFTRoundState.ticketInReach,h]

theorem forcesCommit_cases {round : BFTRoundState}
    (h : round.forcesCommit self.sha3 proposal=true) :
    proposal.slot=round.slot+1 ∧ proposal.slot≠round.slot ∧
      round.ticketInReach proposal=true := by
  obtain ⟨⟨slot,present⟩,_⟩ : (proposal.slot=round.slot+1 ∧
      round.currentSlotPrepareIsPresent=true) ∧ _ := by
    simpa [BFTRoundState.forcesCommit] using h
  refine ⟨slot,?_,by simp [BFTRoundState.ticketInReach,slot,present]⟩
  rw [slot]
  simp

theorem fails_tcTicket (ht : n.bftRoundState.stateTag≠.joining) :
    (self.verifyAndProcessTcTicketChecked now qc kind proposal view n).1.Fails
      ArithmeticFailure ↔
        self.TicketTrips n.bftRoundState proposal view (.timeoutQC qc kind) := by
  have trips : self.TicketTrips n.bftRoundState proposal view (.timeoutQC qc kind) ↔
      self.ticketMatches proposal kind=.ok () ∧ _ := Iff.rfl
  have entered : (self.verifyAndProcessTcTicketChecked now qc kind proposal view n).1=
      ((if n.bftRoundState.ticketInReach proposal=false then pure .notProcessed
        else do
          .lift (self.ticketMatches proposal kind)
          .whenever (n.bftRoundState.forcesCommit self.sha3 proposal=true)
            (self.forceCommit now proposal view)
          self.verifyCurrentTcChecked now qc kind proposal view :
            Handler Node TicketVerifyAndProcess) n).1 := rfl
  rw [entered,trips]
  split_ifs with far
  · constructor
    · intro fails
      exact absurd fails fails_ok.mp
    · rintro ⟨_,⟨slot,_⟩|⟨forces,_⟩⟩
      · rw [ticketInReach_of_slot slot] at far
        cases far
      · rw [(forcesCommit_cases forces).2.2] at far
        cases far
  obtain ⟨⟨⟩,matching⟩|⟨e,other⟩ := (@quiet_ticketMatches _ _ self proposal kind).cases
  · rw [matching,fails_bind_of_ok (rfl : (Handler.lift (.ok ()) : Handler Node Unit) n=_),
      eq_self_iff_true,true_and,Handler.whenever]
    split_ifs with forces
    · obtain ⟨next,later,_⟩ := forcesCommit_cases forces
      have reached : (∃ a t,self.forceCommit now proposal view n=(.ok a,t) ∧
          (self.verifyCurrentTcChecked now qc kind proposal view t).1.Fails ArithmeticFailure) ↔
          (∃ t,self.forceCommit now proposal view n=(.ok (),t)) ∧ view=0 := by
        constructor
        · rintro ⟨_,t,forced,fails⟩
          exact ⟨⟨t,forced⟩,(fails_verifyCurrentTc.mp fails).2⟩
        · rintro ⟨⟨t,forced⟩,first⟩
          have slot := next.trans (slot_forceCommit ht forced).symm
          exact ⟨(),t,forced,fails_verifyCurrentTc.mpr ⟨slot,first⟩⟩
      rw [fails_bind,reached,fails_forceCommit ht,forceCommit_eq_ok ht]
      simp only [later,forces,false_and,false_or,true_and,ForcesInto]
      constructor
      · rintro (⟨unchanging,nobody⟩|⟨⟨unchanging,commits⟩,first⟩)
        · exact ⟨unchanging,Or.inl nobody⟩
        · exact ⟨unchanging,Or.inr ⟨first,commits⟩⟩
      · rintro ⟨unchanging,nobody|⟨first,commits⟩⟩
        · exact Or.inl ⟨unchanging,nobody⟩
        · exact Or.inr ⟨⟨unchanging,commits⟩,first⟩
    · rw [fails_bind_of_ok (rfl : (pure () : Handler Node Unit) n=(.ok (),n)),
        fails_verifyCurrentTc]
      simp only [forces,Bool.false_eq_true,false_and,or_false]
  · rw [other]
    constructor
    · intro fails
      exact absurd fails fails_err.mp
    · rintro ⟨matched,_⟩
      cases matched

theorem bonded_of_tcTicket
    (h : self.verifyAndProcessTcTicketChecked now qc kind proposal view n=(.ok .processed,m)) :
    m.bftRoundState.staking.bonded≠[] := by
  obtain ⟨round,_,_,entered⟩ := bind_eq_ok.mp h
  split_ifs at entered with far
  · cases (Prod.mk.inj entered).1
  · obtain ⟨_,_,_,rest⟩ := bind_eq_ok.mp entered
    obtain ⟨_,t,_,current⟩ := bind_eq_ok.mp rest
    exact bonded_of_verifyCurrentTc current

/-- A commit ticket is followed by a round that has a leader, unless it is the one that the node
keeps: that one is not verified. -/
theorem avoids_commitTicket {qc : CommitQC} : Avoids ArithmeticFailure n
    (self.verifyAndProcessCommitTicket now proposal qc) fun result m => result=.processed →
      m.bftRoundState.staking.bonded≠[] ∨
        m=n ∧ n.bftRoundState.follower.bufferedQuorumCertificate=some qc := by
  refine (Avoids.read _).bind ?_
  rintro round m ⟨rfl,rfl⟩
  apply Avoids.ite
  · intro _
    refine Avoids.pure fun processed => ?_
    cases processed
  intro _
  apply Avoids.ite
  · intro kept
    exact Avoids.pure fun _ => Or.inr ⟨rfl,kept⟩
  intro _
  apply Avoids.ite
  · intro _
    refine (Avoids.quiet BFTRoundState.quiet_verifyQuorumCertificate).bind ?_
    rintro _ m ⟨verified,rfl⟩
    exact Avoids.pure fun _ => Or.inl (BFTRoundState.bonded_of_verified verified)
  intro _
  refine (Avoids.quiet BFTRoundState.quiet_verifyQuorumCertificate).bind ?_
  rintro _ m ⟨verified,rfl⟩
  have somebody := BFTRoundState.bonded_of_verified verified
  refine avoids_emitCommitEvent.bind ?_
  intro _ t same
  rw [← same] at somebody
  refine (avoids_advanceRound somebody).bind ?_
  intro _ u later
  exact Avoids.pure fun _ => Or.inl later

/-- The certificate that the node keeps is not verified again. -/
theorem commitTicket_of_kept {qc : CommitQC} (slot : proposal.slot=n.bftRoundState.slot)
    (kept : n.bftRoundState.follower.bufferedQuorumCertificate=some qc) :
    self.verifyAndProcessCommitTicket now proposal qc n=(.ok .processed,n) := by
  show (if n.bftRoundState.ticketInReach proposal=false then _
    else if n.bftRoundState.follower.bufferedQuorumCertificate=some qc then _ else _ :
      Handler Node TicketVerifyAndProcess) n=_
  rw [if_neg (by rw [ticketInReach_of_slot slot]; decide),if_pos kept]
  rfl

end Tickets

section Calls

/-- After its ticket, a prepare is accepted, buffered or refused. Only its acceptance looks for a
leader. -/
theorem fails_ticket_then_accept : ((do
      match ← self.processTicketChecked now prepare.2.1 prepare.2.2.2 prepare.2.2.1 with
      | .notProcessed => do
          self.bufferPrepareMessageAndFetchMissingParent draw prepare
          return none
      | .processed => self.acceptPrepare prepare : Handler Node (Option Prepare)) n).1.Fails
        ArithmeticFailure ↔
    (self.processTicketChecked now prepare.2.1 prepare.2.2.2 prepare.2.2.1 n).1.Fails
        ArithmeticFailure ∨
      ∃ t,self.processTicketChecked now prepare.2.1 prepare.2.2.2 prepare.2.2.1 n=
          (.ok .processed,t) ∧ SeeksAmongNone t.bftRoundState prepare.2.1 prepare.2.2.2 := by
  rw [fails_bind]
  refine or_congr_right ?_
  constructor
  · rintro ⟨result,t,ticket,fails⟩
    cases result with
    | notProcessed =>
      have buffered : Avoids ArithmeticFailure t (do
          self.bufferPrepareMessageAndFetchMissingParent draw prepare
          return none : Handler Node (Option Prepare)) fun _ _ => True :=
        avoids_bufferPrepare.bind fun _ _ _ => .pure trivial
      exact absurd fails buffered.safe
    | processed => exact ⟨t,ticket,fails_acceptPrepare.mp fails⟩
  · rintro ⟨t,ticket,seeks⟩
    exact ⟨_,t,ticket,fails_acceptPrepare.mpr seeks⟩

/-- A ticket whose certificate has been verified shows that somebody is bonded. -/
theorem ticketTrips_iff (ht : n.bftRoundState.stateTag≠.joining) :
    ((self.processTicketChecked now proposal view ticket n).1.Fails ArithmeticFailure ∨
      ∃ t,self.processTicketChecked now proposal view ticket n=(.ok .processed,t) ∧
        SeeksAmongNone t.bftRoundState proposal view) ↔
      self.TicketTrips n.bftRoundState proposal view ticket := by
  cases ticket with
  | genesis =>
    have checked : self.processTicketChecked now proposal view .genesis n=
        ((do
          .lift (ensure (n.bftRoundState.slot=1)
            "Genesis ticket is only valid for the first slot.")
          return .processed : Handler Node TicketVerifyAndProcess) n) := rfl
    rw [checked,fails_ensure_bind]
    constructor
    · rintro (⟨_,fails⟩|⟨t,ticket,seeks⟩)
      · exact absurd fails fails_ok.mp
      · obtain ⟨_,_,checked,same⟩ := bind_eq_ok.mp ticket
        obtain ⟨slot,rfl⟩ := Prod.mk.inj checked
        obtain ⟨_,rfl⟩ := Prod.mk.inj same
        exact ⟨ensure_eq_ok.mp slot,seeks⟩
    · rintro ⟨slot,seeks⟩
      refine Or.inr ⟨n,bind_eq_ok.mpr ⟨(),n,?_,rfl⟩,seeks⟩
      rw [Handler.lift,ensure_eq_ok.mpr slot]
  | commitQC qc =>
    have avoided : Avoids ArithmeticFailure n
        (self.processTicketChecked now proposal view (.commitQC qc)) _ :=
      avoids_commitTicket.context
    constructor
    · rintro (fails|⟨t,ticket,seeks⟩)
      · exact absurd fails avoided.safe
      · obtain somebody|⟨rfl,kept⟩ := avoided.value _ _ ticket rfl
        · exact absurd seeks.2.2 somebody
        · exact ⟨kept,seeks⟩
    · rintro ⟨kept,seeks⟩
      exact Or.inr ⟨n,context_eq_ok.mpr (commitTicket_of_kept seeks.1 kept),seeks⟩
  | timeoutQC qc kind =>
    rw [← fails_tcTicket ht]
    constructor
    · rintro (fails|⟨t,ticket,seeks⟩)
      · exact fails_context.mp fails
      · exact absurd seeks.2.2 (bonded_of_tcTicket (context_eq_ok.mp ticket))
    · intro fails
      exact Or.inl (fails_context.mpr fails)
  | forcedCommitQc =>
    constructor
    · rintro (fails|⟨t,ticket,_⟩)
      · exact absurd fails fails_err.mp
      · cases (Prod.mk.inj ticket).1
    · intro never
      cases never

theorem fails_followPrepare (ht : n.bftRoundState.stateTag≠.joining) :
    (self.followPrepareChecked now draw prepare n).1.Fails ArithmeticFailure ↔
      ¬prepare.2.1.slot<n.bftRoundState.slot ∧
        self.TicketTrips n.bftRoundState prepare.2.1 prepare.2.2.2 prepare.2.2.1 := by
  rw [← ticketTrips_iff ht,← fails_ticket_then_accept]
  unfold followPrepareChecked
  rw [Node.round,fails_read_bind]
  split_ifs with outdated
  · exact ⟨fun fails => absurd fails fails_ok.mp,fun h => absurd outdated h.1⟩
  · exact (and_iff_right outdated).symm

/-- One call of `on_prepare`, up to the call that it ends with, fails for these prepares only. -/
theorem fails_onPrepareOnce :
    (self.onPrepareOnceChecked now draw prepare n).1.Fails ArithmeticFailure ↔
      self.Trips n.bftRoundState prepare := by
  have entered : (self.onPrepareOnceChecked now draw prepare n).1=
      ((if n.bftRoundState.stateTag≠.joining then self.followPrepareChecked now draw prepare
        else if n.bftRoundState.expectsPrepare prepare.2.1 prepare.2.2.2 then do
          Node.updateRound fun round => { round with stateTag := .follower }
          self.followPrepareChecked now draw prepare
        else do
          Node.updateRound fun round => round.pushPrepare self.sha3 prepare
          return none : Handler Node (Option Prepare)) (n.note (.handled prepare))).1 := rfl
  rw [entered]
  unfold Trips
  split_ifs with part expected
  · have follows : (n.note (.handled prepare)).bftRoundState.stateTag≠.joining := part
    have moved : (self.followPrepareChecked now draw prepare
        (n.note (.handled prepare))).1.Fails ArithmeticFailure ↔ _ ∧ _ :=
      fails_followPrepare follows
    exact moved.trans ⟨fun h => ⟨fun joining => absurd joining part,h⟩,fun h => h.2⟩
  · have follows : ((n.note (.handled prepare)).setRound fun round =>
        { round with stateTag := .follower }).bftRoundState.stateTag≠.joining := by
      intro joining
      cases joining
    have moved : ((do
        Node.updateRound fun round => { round with stateTag := .follower }
        self.followPrepareChecked now draw prepare : Handler Node (Option Prepare))
          (n.note (.handled prepare))).1.Fails ArithmeticFailure ↔ _ ∧ _ :=
      fails_followPrepare follows
    exact moved.trans ⟨fun h => ⟨fun _ => expected,h⟩,fun h => h.2⟩
  · constructor
    · intro fails
      exact absurd fails fails_ok.mp
    · intro h
      exact absurd (h.1 (not_not.mp part)) expected

variable (self) in
/-- The calls of `on_prepare` that one call comes to, with the nodes that they start from: itself,
and those for the buffered prepares that it goes on with. -/
inductive Calls (now : TimestampMs) (draw : Nat) :
    Nat → Prepare → Node → Prepare → Node → Prop
  | here {depth : Nat} {prepare : Prepare} {n : Node} : Calls now draw (depth+1) prepare n prepare n
  | later {depth : Nat} {prepare next call : Prepare} {n m t : Node}
      (goes : self.onPrepareOnceChecked now draw prepare n=(.ok (some next),m))
      (rest : Calls now draw depth next m call t) : Calls now draw (depth+1) prepare n call t

theorem fails_onPrepareNested {depth : Nat} :
    (self.onPrepareNestedChecked now draw depth prepare n).1.Fails ArithmeticFailure ↔
      ∃ call t,self.Calls now draw depth prepare n call t ∧ self.Trips t.bftRoundState call := by
  induction depth generalizing prepare n with
  | zero =>
    have other : ¬ArithmeticFailure "stack overflow" := by decide
    constructor
    · intro fails
      exact absurd (fails_panic.mp fails) other
    · rintro ⟨call,t,calls,_⟩
      cases calls
  | succ depth ih =>
    unfold onPrepareNestedChecked
    rw [fails_bind,fails_onPrepareOnce]
    constructor
    · rintro (trips|⟨next,m,goes,fails⟩)
      · exact ⟨prepare,n,.here,trips⟩
      · cases next with
        | none => exact absurd fails fails_ok.mp
        | some next =>
          obtain ⟨call,t,rest,trips⟩ := ih.mp fails
          exact ⟨call,t,.later goes rest,trips⟩
    · rintro ⟨call,t,calls,trips⟩
      cases calls with
      | here => exact Or.inl trips
      | later goes rest => exact Or.inr ⟨_,_,goes,ih.mpr ⟨call,t,rest,trips⟩⟩

/-- The same, as a condition on the calls. -/
theorem onPrepareChecked_eq (h : ∀ call t,self.Calls now draw self.stackDepth prepare n call t →
    ¬self.Trips t.bftRoundState call) :
    self.onPrepareChecked now draw prepare n=self.onPrepare now draw prepare n := by
  apply guards_onPrepare
  intro fails
  obtain ⟨call,t,calls,trips⟩ := fails_onPrepareNested.mp fails
  exact h call t calls trips

end Calls

/-- A prepare is handled without a failure of the arithmetic exactly if none of the calls that it
comes to has a certificate of a timeout with view zero, and none looks for a leader while nobody
is bonded. -/
theorem arithmetic_onPrepare (self : Consensus PublicKey BlstSignature) (now : TimestampMs)
    (draw : Nat) (n : Node) (prepare : Prepare) :
    ¬(self.onPrepareChecked now draw prepare n).1.Fails ArithmeticFailure ↔
      ∀ call t,self.Calls now draw self.stackDepth prepare n call t →
        ¬self.Trips t.bftRoundState call := by
  unfold onPrepareChecked
  rw [fails_onPrepareNested]
  constructor
  · intro sound call t calls trips
    exact sound ⟨call,t,calls,trips⟩
  · rintro sound ⟨call,t,calls,trips⟩
    exact sound call t calls trips

open FourValidators in
/-- The first proposal with a made-up certificate of a timeout, in view zero. -/
theorem not_arithmetic_onPrepare : ¬∀ (n : Node) (prepare : Prepare),
    n.bftRoundState.stateTag=.follower →
      ¬(fourth.onPrepareChecked 0 0 prepare n).1.Fails ArithmeticFailure := by
  intro sound
  have follows : (started fourth).bftRoundState.stateTag=.follower := by decide +kernel
  apply sound (started fourth) ([1],first,.timeoutQC noTimeout .nilProposal,0) follows
  decide +kernel

end Consensus

end TruthSeeker
