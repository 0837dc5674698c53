import TruthSeeker.Consensus.TicketApplication
import TruthSeeker.Framework.HandlerPanics

namespace TruthSeeker

open Outcome

namespace Outcome.Quiet

variable {α β : Type}

theorem fromExcept {x : Except String α} {text : String → String} :
    Quiet (fromExcept x fun e => .err (text e)) := by
  cases x with
  | error e => exact of_err
  | ok a => exact of_ok

theorem mapM {f : α → Outcome β} (hf : ∀ a,Quiet (f a)) {list : List α} :
    Quiet (list.mapM f) := by
  induction list with
  | nil => exact of_ok
  | cons a list ih =>
    rw [List.mapM_cons]
    exact (hf a).bind fun _ _ => ih.bind fun _ _ => of_ok

end Outcome.Quiet

section
variable {PublicKey BlstSignature T : Type} {blst : Blst PublicKey BlstSignature}
  {crypto : BlstCrypto PublicKey BlstSignature}

theorem quiet_toVec [Borsh T] {value : T} : Quiet (toVec value) := Quiet.fromOption

theorem Blst.quiet_verifySigned [Borsh T] {msg : SignedByValidator T} :
    Quiet (blst.verifySigned msg) := by
  refine Quiet.fromExcept.bind fun _ _ => ?_
  refine Quiet.fromExcept.bind fun _ _ => ?_
  exact quiet_toVec.bind fun _ _ => Quiet.of_ok

theorem Blst.quiet_verifyAggregate [Borsh T] {msg : Signed T AggregateSignature} :
    Quiet (blst.verifyAggregate msg) := by
  have aggregated : Quiet (blst.aggregateValidatorsPk msg.signature.validators) :=
    (Quiet.mapM fun _ => Quiet.fromExcept).bind fun _ _ => Quiet.fromExcept
  refine aggregated.bind fun _ _ => ?_
  refine Quiet.fromExcept.bind fun _ _ => ?_
  exact quiet_toVec.bind fun _ _ => Quiet.of_ok

theorem BlstCrypto.quiet_sign [Borsh T] {msg : T} : Quiet (crypto.sign msg) :=
  quiet_toVec.bind fun _ _ => Quiet.of_ok

end

namespace BFTRoundState

variable {PublicKey BlstSignature T Marker : Type} {blst : Blst PublicKey BlstSignature}
  {round : BFTRoundState}

theorem quiet_signaturesAccepted {res : Outcome Bool} {known : Bool} (h : Quiet res) :
    Quiet (signaturesAccepted res known) := by
  obtain ⟨valid,rfl⟩|⟨e,rfl⟩ := h.cases
  · cases valid <;> cases known <;> simp only [signaturesAccepted,Quiet.of_ok,Quiet.of_err]
  · exact Quiet.of_err

theorem quiet_verifyQuorumCertificate [Borsh T] {message : T} {qc : QuorumCertificate Marker} :
    Quiet (round.verifyQuorumCertificate blst message qc) :=
  (quiet_signaturesAccepted Blst.quiet_verifyAggregate).bind fun _ _ => Quiet.ensure

theorem quiet_verifyVotes {entry : LaneId × DataProposalHash × LaneBytesSize × PoDA} :
    Quiet (round.verifyVotes blst entry) := by
  refine Quiet.ensure.bind fun _ _ => ?_
  have quiet : Quiet (blst.verifyAggregate (T := DataProposalHash × LaneBytesSize)
    ⟨(entry.2.1,entry.2.2.1),entry.2.2.2⟩) := Blst.quiet_verifyAggregate
  obtain ⟨valid,h⟩|⟨e,h⟩ := quiet.cases
  · rw [h]
    cases valid
    · exact Quiet.of_err
    · exact Quiet.of_ok
  · rw [h]
    exact Quiet.of_err

theorem quiet_verifyLane {entry : LaneId × DataProposalHash × LaneBytesSize × PoDA} :
    Quiet (round.verifyLane blst entry) := by
  refine Quiet.ensure.bind fun _ _ => ?_
  split
  · exact quiet_verifyVotes
  · split_ifs
    · exact Quiet.of_ok
    · exact Quiet.ensure.bind fun _ _ => quiet_verifyVotes

theorem quiet_verifyPoda {proposal : ConsensusProposal} :
    Quiet (round.verifyPoda blst proposal) := by
  refine Quiet.ensure.bind fun _ _ => ?_
  induction proposal.cut with
  | nil => exact Quiet.of_ok
  | cons entry cut ih => exact quiet_verifyLane.bind fun _ _ => ih

theorem quiet_verifyTimestamp {config : ConsensusConfig} {proposal : ConsensusProposal} :
    Quiet (round.verifyTimestamp config proposal) := by
  unfold verifyTimestamp
  split_ifs
  · exact Quiet.of_ok
  · split
    · exact Quiet.of_ok
    · exact Quiet.ensure
    · exact Quiet.ensure.bind fun _ _ => Quiet.ensure

/-- Who signs a verified certificate is bonded, so that somebody is. -/
theorem bonded_of_verified [Borsh T] {message : T} {qc : QuorumCertificate Marker}
    (h : round.verifyQuorumCertificate blst message qc=.ok ()) : round.staking.bonded≠[] := by
  obtain ⟨_,_,_,signers,power⟩ := round.verifyQuorumCertificate_eq_ok blst |>.mp h
  obtain ⟨v,signed⟩ := List.exists_mem_of_ne_nil _ (Staking.quorum_ne_nil power)
  exact List.ne_nil_of_mem (signers v signed)

end BFTRoundState

namespace Consensus

open Handler

variable {PublicKey BlstSignature : Type} {self : Consensus PublicKey BlstSignature}
  {bad : String → Prop} {n : Node}

theorem avoids_verifyStakingActions {cut : Cut} {actions : List ConsensusStakingAction} :
    Avoids bad n (self.verifyStakingActions cut actions) fun _ _ => True := by
  induction actions generalizing n with
  | nil => exact .pure trivial
  | cons action actions ih =>
    have first : Avoids bad n (self.verifyStakingAction cut action) fun _ _ => True := by
      cases action with
      | payFeesForDaDi laneId cumulSize => exact (Avoids.quiet Quiet.ensure).any
      | bond candidate =>
        refine (Avoids.read _).bind ?_
        rintro round _ ⟨rfl,rfl⟩
        split
        · exact .fail _
        apply Avoids.ite
        · intro _
          exact .fail _
        intro _
        refine (Avoids.quiet Blst.quiet_verifySigned).bind fun _ _ _ => ?_
        refine (Avoids.quiet Quiet.ensure).bind fun _ _ _ => ?_
        exact (Avoids.modify _).bind fun _ _ _ => (Avoids.modify _).any
    exact first.bind fun _ _ _ => ih

theorem avoids_votePrepare {leader : ValidatorPublicKey} {hash : ConsensusProposalHash} :
    Avoids bad n (self.votePrepare leader hash) fun _ _ => True := by
  refine (Avoids.read _).bind fun round _ _ => ?_
  apply Avoids.whenever
  · intro _
    exact (Avoids.quiet BlstCrypto.quiet_sign).bind fun _ _ _ => (Avoids.modify _).any
  · intro _
    trivial

theorem avoids_emitCommitEvent {qc : CommitQC} : Avoids bad n (Node.emitCommitEvent qc)
    fun _ m => m.bftRoundState=n.bftRoundState := by
  refine (Avoids.read _).bind ?_
  rintro round m ⟨rfl,rfl⟩
  refine (Avoids.modify _).mono ?_
  rintro _ _ rfl
  rfl

/-- The start of the round changes nothing but what the node does as its leader. -/
theorem avoids_beginRound {ticket : Ticket} : Avoids bad n (self.beginRound ticket)
    fun _ m => m.bftRoundState.staking=n.bftRoundState.staking := by
  refine (Avoids.read _).bind ?_
  rintro round m ⟨rfl,rfl⟩
  apply Avoids.ite
  · intro _
    refine (Avoids.modify _).bind ?_
    rintro _ _ rfl
    refine (Avoids.modify _).mono ?_
    rintro _ _ rfl
    rfl
  intro _
  apply Avoids.ite
  · intro _
    exact .pure rfl
  intro _
  apply Avoids.ite
  · intro _
    refine (Avoids.quiet BlstCrypto.quiet_sign).bind ?_
    rintro candidacy m ⟨_,rfl⟩
    refine (Avoids.modify _).mono ?_
    rintro _ _ rfl
    rfl
  · intro _
    exact .pure rfl

/-- A verified certificate shows that somebody is bonded. -/
theorem avoids_verifyTc {qc : TimeoutQC} {kind : TCKind} {slot : Slot} {view : View} :
    Avoids bad n (self.verifyTc qc kind slot view)
      fun _ m => m.bftRoundState.staking.bonded≠[] := by
  refine (Avoids.read _).bind ?_
  rintro round m ⟨rfl,rfl⟩
  refine (Avoids.quiet BFTRoundState.quiet_verifyQuorumCertificate).context.bind ?_
  rintro _ m ⟨verified,rfl⟩
  have somebody := BFTRoundState.bonded_of_verified verified
  have prepared : Avoids bad m (self.verifyTcKind slot kind)
      fun _ t => t.bftRoundState.staking.bonded≠[] := by
    cases kind with
    | nilProposal => exact .pure somebody
    | prepareQC prepareQc proposal =>
      refine (Avoids.quiet Quiet.ensure).bind ?_
      rintro _ m ⟨_,rfl⟩
      refine (Avoids.read _).bind ?_
      rintro round m ⟨rfl,rfl⟩
      refine (Avoids.quiet BFTRoundState.quiet_verifyQuorumCertificate).context.bind ?_
      rintro _ m ⟨_,rfl⟩
      refine (Avoids.modify _).mono ?_
      rintro _ _ rfl
      show (m.bftRoundState.updatePrepareQc _ _ _).staking.bonded≠[]
      rw [BFTRoundState.updatePrepareQc_staking]
      exact somebody
  refine prepared.bind ?_
  intro _ t ht
  refine (Avoids.modify _).mono ?_
  rintro _ _ rfl
  exact ht

end Consensus

end TruthSeeker
