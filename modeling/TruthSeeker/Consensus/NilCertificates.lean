import TruthSeeker.Consensus.Changes
import TruthSeeker.Consensus.CommitCertificate

namespace TruthSeeker

open Outcome

/-- The timeouts that have been sent, with their senders. -/
abbrev TimeoutLog := List (ValidatorPublicKey × ConsensusTimeout)

namespace TimeoutLog

variable (timeouts : TimeoutLog)
  (message : Slot × View × ConsensusProposalHash × ConsensusTimeoutMarker)

/-- The validator has sent a timeout that says that it has no prepare QC. -/
def Nil (v : ValidatorPublicKey) : Prop :=
  ∃ timeout signedNil,(v,(timeout,.nilProposal signedNil)) ∈ timeouts ∧ timeout.msg=message

/-- The validator has sent a timeout with a prepare QC. -/
def Prepared (v : ValidatorPublicKey) : Prop :=
  ∃ timeout qc proposal,(v,(timeout,.prepareQC qc proposal)) ∈ timeouts ∧ timeout.msg=message

end TimeoutLog

/-- The validator has signed the bytes of the message. -/
def SigningLog.SignedTimeout (log : SigningLog)
    (message : Slot × View × ConsensusProposalHash × ConsensusTimeoutMarker)
    (v : ValidatorPublicKey) : Prop :=
  ∃ encoded,toVec message=.ok encoded ∧ log.Signed v encoded

section
variable {PublicKey BlstSignature T Marker : Type} [Borsh T]
  {blst : Blst PublicKey BlstSignature} {log : SigningLog} {self : BFTRoundState}

/-- A certificate of exactly these validators verifies if they have all signed and have the
power. -/
theorem BFTRoundState.exists_certificate_of_signed (ideal : blst.Ideal log.Signed)
    {message : T} {encoded : Bytes} (he : toVec message=.ok encoded) (marker : Marker)
    {validators : List ValidatorPublicKey}
    (hv : ∀ v ∈ validators,v ∈ self.staking.bonded ∧ log.Signed v encoded)
    (hp : 2*self.staking.computeF+1 ≤ self.staking.computeVotingPower validators) :
    ∃ qc : QuorumCertificate Marker,qc.aggregate.validators=validators ∧
      self.verifyQuorumCertificate blst message qc=.ok () := by
  obtain ⟨signature,hs⟩ := (ideal validators encoded).mpr
    ⟨Staking.quorum_ne_nil hp,fun v hm => (hv v hm).2⟩
  exact ⟨⟨⟨signature,validators⟩,marker⟩,rfl,(verifyQuorumCertificate_eq_ok _ _).mpr
    ⟨encoded,he,hs,fun v hm => (hv v hm).1,hp⟩⟩

/-- The signers of a certificate that verifies are bonded and have signed. -/
theorem BFTRoundState.signed_of_certificate (ideal : blst.Ideal log.Signed) {message : T}
    {qc : QuorumCertificate Marker} (h : self.verifyQuorumCertificate blst message qc=.ok ()) :
    ∃ encoded,toVec message=.ok encoded ∧
      (∀ v ∈ qc.aggregate.validators,v ∈ self.staking.bonded ∧ log.Signed v encoded) ∧
      2*self.staking.computeF+1 ≤ self.staking.computeVotingPower qc.aggregate.validators := by
  obtain ⟨encoded,he,hv,hb,hp⟩ := (verifyQuorumCertificate_eq_ok _ _).mp h
  have all := ((ideal _ encoded).mp ⟨qc.aggregate.signature,hv⟩).2
  exact ⟨encoded,he,fun v hm => ⟨hb v hm,all v hm⟩,hp⟩

end

namespace Consensus

variable {PublicKey BlstSignature : Type} (self : Consensus PublicKey BlstSignature)
  (log : SigningLog) (timeouts : TimeoutLog) (round : BFTRoundState) (slot : Slot) (view : View)

/-- What a nil certificate is taken for: that its signers have no prepare QC. No timeouts that
carried one make a nil certificate. -/
def NilCertificatesSound : Prop :=
  (∀ qc,self.VerifiesTc round qc .nilProposal slot view →
    round.staking.HoldsQuorum (timeouts.Nil (slot,view,round.parentHash,⟨⟩))) ∧
  ∀ qc : TimeoutQC,
    (∀ v ∈ qc.aggregate.validators,timeouts.Prepared (slot,view,round.parentHash,⟨⟩) v) →
    ¬self.VerifiesTc round qc .nilProposal slot view

/-- `verify_tc` accepts a nil certificate exactly if its check of the aggregate succeeds. -/
theorem verifyTc_nil_eq_ok {n : Node} {qc : TimeoutQC} {slot : Slot} {view : View} :
    (self.verifyTc qc .nilProposal slot view n).1=.ok () ↔
      self.VerifiesTc n.bftRoundState qc .nilProposal slot view := by
  simp only [verifyTc,Handler.bind_apply,Node.round,Handler.read,Handler.context,Handler.lift,
    VerifiesTc,and_true]
  cases n.bftRoundState.verifyQuorumCertificate self.crypto.toBlst
      (slot,view,n.bftRoundState.parentHash,(⟨⟩ : ConsensusTimeoutMarker)) qc with
  | ok u => exact ⟨fun _ => rfl,fun _ => rfl⟩
  | error fault => cases fault <;> simp

/-- Nil certificates are sound exactly if the validators that have signed the timeout hold no
quorum, or those with nil timeouts do, and those with a prepare QC do not. -/
theorem nilCertificatesSound_iff (ideal : self.crypto.Ideal log.Signed) :
    self.NilCertificatesSound timeouts round slot view ↔
      (round.staking.HoldsQuorum (log.SignedTimeout (slot,view,round.parentHash,⟨⟩)) →
        round.staking.HoldsQuorum (timeouts.Nil (slot,view,round.parentHash,⟨⟩))) ∧
      ¬round.staking.HoldsQuorum fun v =>
        log.SignedTimeout (slot,view,round.parentHash,⟨⟩) v ∧
          timeouts.Prepared (slot,view,round.parentHash,⟨⟩) v := by
  -- All signers of a timeout have signed the same bytes.
  have certificate : ∀ p : ValidatorPublicKey → Prop,
      round.staking.HoldsQuorum
        (fun v => log.SignedTimeout (slot,view,round.parentHash,⟨⟩) v ∧ p v) →
      ∃ qc,self.VerifiesTc round qc .nilProposal slot view ∧
        ∀ v ∈ qc.aggregate.validators,p v := by
    intro p ⟨validators,hv,hp⟩
    obtain ⟨v,hm⟩ := List.exists_mem_of_ne_nil _ (Staking.quorum_ne_nil hp)
    obtain ⟨encoded,he,_⟩ := (hv v hm).2.1
    have signed : ∀ v ∈ validators,v ∈ round.staking.bonded ∧ log.Signed v encoded := by
      intro v hm
      obtain ⟨bytes,hb,hs⟩ := (hv v hm).2.1
      obtain rfl := Except.ok.inj (he.symm.trans hb)
      exact ⟨(hv v hm).1,hs⟩
    obtain ⟨qc,named,verified⟩ := BFTRoundState.exists_certificate_of_signed ideal he
      (⟨⟩ : ConsensusTimeoutMarker) signed hp
    refine ⟨qc,⟨verified,trivial⟩,?_⟩
    intro v hm
    rw [named] at hm
    exact (hv v hm).2.2
  constructor
  · intro ⟨proves,never⟩
    constructor
    · intro signed
      obtain ⟨qc,verified,_⟩ := certificate (fun _ => True) (signed.mono fun v hv => ⟨hv,trivial⟩)
      exact proves qc verified
    · intro prepared
      obtain ⟨qc,verified,all⟩ := certificate _ prepared
      exact never qc all verified
  · intro ⟨enough,never⟩
    have quorum : ∀ qc,self.VerifiesTc round qc .nilProposal slot view →
        (∀ v ∈ qc.aggregate.validators,v ∈ round.staking.bonded ∧
          log.SignedTimeout (slot,view,round.parentHash,⟨⟩) v) ∧
        2*round.staking.computeF+1 ≤
          round.staking.computeVotingPower qc.aggregate.validators := by
      intro qc verified
      obtain ⟨encoded,he,signed,power⟩ := BFTRoundState.signed_of_certificate ideal verified.1
      exact ⟨fun v hm => ⟨(signed v hm).1,encoded,he,(signed v hm).2⟩,power⟩
    constructor
    · intro qc verified
      obtain ⟨signed,power⟩ := quorum qc verified
      exact enough ⟨qc.aggregate.validators,signed,power⟩
    · intro qc all verified
      obtain ⟨signed,power⟩ := quorum qc verified
      exact never ⟨qc.aggregate.validators,
        fun v hm => ⟨(signed v hm).1,(signed v hm).2,all v hm⟩,power⟩

end Consensus

namespace FourValidators

open Consensus

def timeoutMessage : Slot × View × ConsensusProposalHash × ConsensusTimeoutMarker := (1,0,"",⟨⟩)

/-- Three validators sign the timeout of the first view. -/
def timeoutSigners : SigningLog := [[1],[2],[3]].map fun v => (v,.consensusTimeout 1 0 "")

def timeoutNode : Consensus (List ValidatorPublicKey) Bytes where
  crypto := { timeoutSigners.blst with signBytes := id,validatorPubkey := [4] }
  config := ⟨.full,1000,""⟩
  sha3 := sha3
  stackDepth := 1

def signedTimeout (v : ValidatorPublicKey) : SignedTimeout :=
  ⟨timeoutMessage,⟨(toVec timeoutMessage).toOption.getD [],v⟩⟩

def sentNil : TimeoutLog :=
  [[1],[2],[3]].map fun v => (v,(signedTimeout v,.nilProposal (signedTimeout v)))

/-- The three have seen a prepare QC of the proposal. -/
def sentPrepared : TimeoutLog :=
  [[1],[2],[3]].map fun v => (v,(signedTimeout v,.prepareQC ⟨Inhabited.default,⟨⟩⟩ proposal))

theorem bonded_of_signers {v : ValidatorPublicKey} (hv : v ∈ ([[1],[2],[3]] : List Bytes)) :
    v ∈ round.staking.bonded := by
  show v ∈ [[1],[2],[3]]++([[4]] : List ValidatorPublicKey)
  exact List.mem_append_left _ hv

end FourValidators

open FourValidators in
/-- Three validators have sent nil timeouts. -/
theorem Consensus.nilCertificatesSound_nil :
    timeoutNode.NilCertificatesSound sentNil round 1 0 := by
  refine (nilCertificatesSound_iff timeoutNode timeoutSigners sentNil round 1 0
    timeoutSigners.blst_ideal).mpr ⟨?_,?_⟩
  · intro _
    refine ⟨[[1],[2],[3]],?_,three_holdQuorum⟩
    intro v hv
    exact ⟨bonded_of_signers hv,_,_,List.mem_map.mpr ⟨v,hv,rfl⟩,rfl⟩
  · intro ⟨validators,hv,hp⟩
    obtain ⟨v,hm⟩ := List.exists_mem_of_ne_nil _ (Staking.quorum_ne_nil hp)
    obtain ⟨timeout,qc,proposal,sent,_⟩ := (hv v hm).2.2
    simp [sentNil] at sent

open FourValidators in
/-- Timeouts that carry a prepare QC make a nil certificate. -/
theorem Consensus.not_nilCertificatesSound : timeoutNode.crypto.Ideal timeoutSigners.Signed ∧
    ¬timeoutNode.NilCertificatesSound sentPrepared round 1 0 := by
  refine ⟨timeoutSigners.blst_ideal,?_⟩
  intro sound
  have quorum : ∀ v ∈ ([[1],[2],[3]] : List Bytes),v ∈ round.staking.bonded ∧
      timeoutSigners.Signed v ((toVec timeoutMessage).toOption.getD []) := by
    intro v hv
    exact ⟨bonded_of_signers hv,_,List.mem_map.mpr ⟨v,hv,rfl⟩,rfl⟩
  have encoded : toVec timeoutMessage=.ok ((toVec timeoutMessage).toOption.getD []) := rfl
  obtain ⟨qc,named,verified⟩ := BFTRoundState.exists_certificate_of_signed
    timeoutSigners.blst_ideal encoded (⟨⟩ : ConsensusTimeoutMarker) quorum three_holdQuorum
  refine sound.2 qc ?_ ⟨verified,trivial⟩
  intro v hv
  rw [named] at hv
  exact ⟨_,_,_,List.mem_map.mpr ⟨v,hv,rfl⟩,rfl⟩

end TruthSeeker
