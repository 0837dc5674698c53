import TruthSeeker.Consensus.SigningLog
import TruthSeeker.Consensus.State

namespace TruthSeeker

open Outcome Borsh

/-- Bonded validators with the property hold at least 2f+1 of the voting power. -/
def Staking.HoldsQuorum (self : Staking) (p : ValidatorPublicKey → Prop) : Prop :=
  ∃ validators : List ValidatorPublicKey,(∀ v ∈ validators,v ∈ self.bonded ∧ p v) ∧
    2*self.computeF+1 ≤ self.computeVotingPower validators

theorem Staking.HoldsQuorum.mono {self : Staking} {p q : ValidatorPublicKey → Prop}
    (h : self.HoldsQuorum p) (hpq : ∀ v,p v → q v) : self.HoldsQuorum q := by
  obtain ⟨validators,hv,hp⟩ := h
  exact ⟨validators,fun v hm => ⟨(hv v hm).1,hpq v (hv v hm).2⟩,hp⟩

/-- One validator at least is among the signers of a quorum. -/
theorem Staking.quorum_ne_nil {self : Staking} {validators : List ValidatorPublicKey}
    (h : 2*self.computeF+1 ≤ self.computeVotingPower validators) : validators≠[] := by
  intro hnil
  subst hnil
  have hz : self.computeVotingPower []=0 := rfl
  have hf : self.computeF.toNat=self.totalBond.toNat/3 := by
    simp [computeF,BitVec.toNat_udiv]
  have hlt := self.totalBond.isLt
  rw [hz,BitVec.le_def,BitVec.toNat_add,BitVec.toNat_mul,hf] at h
  simp only [BitVec.ofNat_eq_ofNat,BitVec.toNat_ofNat] at h
  omega

section
variable {PublicKey BlstSignature : Type} (blst : Blst PublicKey BlstSignature)
variable (sha3 : Bytes → H256) (log : SigningLog)

/-- What an accepted commit certificate is taken for. -/
def BFTRoundState.CommitCertificatesProve (self : BFTRoundState) : Prop :=
  ∀ qc,self.verifyCommitQuorumCertificateAgainstCurrentProposal blst sha3 qc=.ok () →
    self.staking.HoldsQuorum
      fun v => (v,SignedMessage.confirmAck (self.currentProposal.hashed sha3)) ∈ log

/-- The kinds of messages that consist of the text of a proposal hash alone. -/
def SigningLog.SignedHash (v : ValidatorPublicKey) (h : ConsensusProposalHash) : Prop :=
  (v,SignedMessage.confirmAck h) ∈ log ∨ (v,SignedMessage.prepareVote h) ∈ log ∨
    (v,SignedMessage.validatorCandidacy ⟨h⟩) ∈ log

theorem SigningLog.signed_hash_iff {v : ValidatorPublicKey} {digest : H256} {bs : Bytes}
    (hb : toVec (Bytes.hex digest.toList)=.ok bs) :
    log.Signed v bs ↔ log.SignedHash v (Bytes.hex digest.toList) := by
  constructor
  · intro h
    obtain ⟨m,hm,he⟩ := h
    obtain rfl|rfl|rfl := SignedMessage.encoded_eq_hash he hb
    · exact Or.inr (Or.inl hm)
    · exact Or.inl hm
    · exact Or.inr (Or.inr hm)
  · intro h
    obtain hm|hm|hm := h
    · exact ⟨_,hm,by rw [SignedMessage.encoded_confirmAck,hb]⟩
    · exact ⟨_,hm,by rw [SignedMessage.encoded_prepareVote,hb]⟩
    · exact ⟨_,hm,by rw [SignedMessage.encoded_validatorCandidacy,hb]⟩

theorem toVec_hash (digest : H256) : ∃ bs,toVec (Bytes.hex digest.toList)=.ok bs := by
  have hl : (utf8 (Bytes.hex digest.toList)).length<2^32 := by
    rw [(utf8_hex _).1,digest.length_toList]
    omega
  exact ⟨_,toVec_eq_ok.mpr (ser_string hl)⟩

/-- A commit certificate is accepted for the current proposal exactly if bonded validators
with 2f+1 of the power signed the bytes of its hash, for whatever purpose. -/
theorem BFTRoundState.exists_commitCertificate_iff (self : BFTRoundState)
    (ideal : blst.Ideal log.Signed) :
    (∃ qc,self.verifyCommitQuorumCertificateAgainstCurrentProposal blst sha3 qc=.ok ()) ↔
      self.staking.HoldsQuorum
        fun v => log.SignedHash v (self.currentProposal.hashed sha3) := by
  obtain ⟨bs,hb⟩ := toVec_hash (sha3 self.currentProposal.preimage)
  have message : toVec (self.currentProposal.hashed sha3,(⟨⟩ : ConfirmAckMarker))=.ok bs := by
    rw [toVec_marked _ _ rfl]
    exact hb
  simp only [verifyCommitQuorumCertificateAgainstCurrentProposal,verifyQuorumCertificate_eq_ok,
    message,Except.ok.injEq,exists_eq_left']
  constructor
  · intro h
    obtain ⟨⟨⟨signature,validators⟩,marker⟩,hv,hbonded,hp⟩ := h
    obtain ⟨_,hs⟩ := (ideal validators bs).mp ⟨signature,hv⟩
    refine ⟨validators,?_,hp⟩
    intro v hm
    exact ⟨hbonded v hm,(log.signed_hash_iff hb).mp (hs v hm)⟩
  · intro h
    obtain ⟨validators,hv,hp⟩ := h
    obtain ⟨signature,hs⟩ := (ideal validators bs).mpr ⟨Staking.quorum_ne_nil hp,
      fun v hm => (log.signed_hash_iff hb).mpr (hv v hm).2⟩
    exact ⟨⟨⟨signature,validators⟩,⟨⟩⟩,hs,fun v hm => (hv v hm).1,hp⟩

/-- Commit certificates prove commit votes exactly if no quorum can be put together from
commit votes, prepare votes and candidacies under the address of that text, unless the
commit votes are one. The signed bytes of two votes differ exactly if their hashes do,
whatever their phases. -/
theorem commitCertificatesProve_iff (self : BFTRoundState) (ideal : blst.Ideal log.Signed) :
    (self.CommitCertificatesProve blst sha3 log ↔
      (self.staking.HoldsQuorum
          (fun v => log.SignedHash v (self.currentProposal.hashed sha3)) →
        self.staking.HoldsQuorum
          fun v => (v,SignedMessage.confirmAck (self.currentProposal.hashed sha3)) ∈ log)) ∧
    ∀ h h' prepareVote confirmAck,(SignedMessage.prepareVote h).encoded=.ok prepareVote →
      (SignedMessage.confirmAck h').encoded=.ok confirmAck →
      (prepareVote≠confirmAck ↔ h≠h') := by
  constructor
  · rw [← self.exists_commitCertificate_iff blst sha3 log ideal]
    constructor
    · intro prove h
      obtain ⟨qc,hq⟩ := h
      exact prove qc hq
    · intro enough qc hq
      exact enough ⟨qc,hq⟩
  · intro h h' prepareVote confirmAck hp hc
    rw [SignedMessage.encoded_prepareVote] at hp
    rw [SignedMessage.encoded_confirmAck] at hc
    have same : prepareVote=confirmAck ↔ h=h' := by
      constructor
      · intro e
        exact SignedMessage.toVec_string_injective hp (e ▸ hc)
      · intro e
        subst e
        exact Except.ok.inj (hp.symm.trans hc)
    rw [Ne,same]

end

namespace FourValidators

/-- Four validators with a stake of 100 each. -/
def staking : Staking where
  stakes := .ofList ([("a",100),("b",100),("c",100),("d",100)] : List (Identity × U128))
  delegations := .ofList
    ([([1],["a"]),([2],["b"]),([3],["c"]),([4],["d"])] : List (ValidatorPublicKey × List Identity))
  rewarded := ∅
  bonded := [[1],[2],[3],[4]]
  totalBond := 400
  fees := Fees.empty

def proposal : ConsensusProposal := ⟨1,"",[],[],0⟩

/-- SHA3-256 at the bytes of the proposal. -/
def sha3 : Bytes → H256 :=
  ByteVec.lookup [(proposal.preimage,
    ByteVec.ofNat 32 0x152058c4aded5c45e6c5b36c46c22faa4172e1829870023dacbcce408221b1c4)]

def round : BFTRoundState :=
  { BFTRoundState.default with staking := staking,slot := 1,currentProposal := proposal }

/-- Three validators sign one message each for the proposal. -/
def signed (message : ConsensusProposalHash → SignedMessage) : SigningLog :=
  [[1],[2],[3]].map fun v => (v,message (proposal.hashed sha3))

theorem three_holdQuorum :
    2*staking.computeF+1 ≤ staking.computeVotingPower [[1],[2],[3]] := by
  decide +kernel

theorem holdsQuorum_signed (message : ConsensusProposalHash → SignedMessage) :
    staking.HoldsQuorum
      fun v => (v,message (proposal.hashed sha3)) ∈ signed message := by
  refine ⟨[[1],[2],[3]],?_,three_holdQuorum⟩
  intro v hv
  constructor
  · show v ∈ [[1],[2],[3]]++([[4]] : List ValidatorPublicKey)
    exact List.mem_append_left _ hv
  · exact List.mem_map.mpr ⟨v,hv,rfl⟩

end FourValidators

open FourValidators in
theorem commitCertificatesProve_confirmed :
    round.CommitCertificatesProve (signed .confirmAck).blst FourValidators.sha3
      (signed .confirmAck) :=
  (commitCertificatesProve_iff (signed .confirmAck).blst FourValidators.sha3
    (signed .confirmAck) round (signed .confirmAck).blst_ideal).1.mpr
    fun _ => holdsQuorum_signed .confirmAck

open FourValidators in
/-- Three prepare votes make a commit certificate, though nobody signed a commit vote. -/
theorem not_commitCertificatesProve :
    (signed .prepareVote).blst.Ideal (signed .prepareVote).Signed ∧
    ¬round.CommitCertificatesProve (signed .prepareVote).blst FourValidators.sha3
      (signed .prepareVote) := by
  have ideal := (signed .prepareVote).blst_ideal
  refine ⟨ideal,?_⟩
  intro prove
  have votes : staking.HoldsQuorum
      fun v => (signed .prepareVote).SignedHash v (proposal.hashed FourValidators.sha3) :=
    (holdsQuorum_signed .prepareVote).mono fun v hv => Or.inr (Or.inl hv)
  obtain ⟨qc,hq⟩ := (round.exists_commitCertificate_iff _ FourValidators.sha3 _ ideal).mpr votes
  obtain ⟨validators,hv,hp⟩ := prove qc hq
  obtain ⟨v,hm⟩ := List.exists_mem_of_ne_nil _ (Staking.quorum_ne_nil hp)
  have hack := (hv v hm).2
  simp [signed] at hack

end TruthSeeker
