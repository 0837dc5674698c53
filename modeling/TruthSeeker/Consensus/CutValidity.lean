import TruthSeeker.Consensus.CommittedIdentity

namespace TruthSeeker

open Outcome

namespace BFTRoundState

variable {PublicKey BlstSignature : Type} (blst : Blst PublicKey BlstSignature)

/-- The entry of a lane in the cut of the parent. -/
def parentEntry (round : BFTRoundState) (laneId : LaneId) :
    Option (LaneId × DataProposalHash × LaneBytesSize × PoDA) :=
  round.parentCut.find? fun e => e.1=laneId

/-- The bonded validators among the signers hold more than f. -/
def BondedVotes (round : BFTRoundState)
    (entry : LaneId × DataProposalHash × LaneBytesSize × PoDA) : Prop :=
  round.staking.computeF+1 ≤ round.staking.computeVotingPower
    (entry.2.2.2.validators.filter fun v => round.staking.isBonded v)

/-- The entry has a verified PoDA of bonded validators for its data proposal and size, which is
larger than that of the lane before. -/
structure NewlyVoted (round : BFTRoundState)
    (entry : LaneId × DataProposalHash × LaneBytesSize × PoDA) : Prop where
  verified : blst.verifyAggregate (T := DataProposalHash × LaneBytesSize)
    ⟨(entry.2.1,entry.2.2.1),entry.2.2.2⟩=.ok true
  bonded : round.BondedVotes entry
  larger : ∀ last,round.parentEntry entry.1=some last → last.2.2.1<entry.2.2.1

/-- The cut of a proposal that follows the cut of its parent. -/
structure CutValid (round : BFTRoundState) (cut : Cut) : Prop where
  lanes : (cut.map Prod.fst).Nodup
  entries : ∀ entry ∈ cut,round.parentEntry entry.1=some entry ∨ round.NewlyVoted blst entry
  sizes : ∀ entry ∈ cut,∀ last,round.parentEntry entry.1=some last →
    (entry.2.1=last.2.1 ↔ entry.2.2.1=last.2.2.1)

/-- What acceptance leaves open: lanes that are named twice, data proposals that stay while the
rest of their entry does not, and votes of validators that are not bonded. -/
structure CutRegular (round : BFTRoundState) (cut : Cut) : Prop where
  lanes : (cut.map Prod.fst).Nodup
  kept : ∀ entry ∈ cut,∀ last,round.parentEntry entry.1=some last → last.2.1=entry.2.1 →
    last=entry
  bonded : ∀ entry ∈ cut,
    (∀ last,round.parentEntry entry.1=some last → last.2.1≠entry.2.1) → round.BondedVotes entry

variable {blst} {round : BFTRoundState}

/-- A new data proposal has been looked at. -/
theorem verified_of_verifyLane {entry : LaneId × DataProposalHash × LaneBytesSize × PoDA}
    (h : round.verifyLane blst entry=.ok ())
    (new : ∀ last,round.parentEntry entry.1=some last → last.2.1≠entry.2.1) :
    blst.verifyAggregate (T := DataProposalHash × LaneBytesSize)
      ⟨(entry.2.1,entry.2.2.1),entry.2.2.2⟩=.ok true ∧
    ∀ last,round.parentEntry entry.1=some last → last.2.2.1<entry.2.2.1 := by
  obtain ⟨laneId,hash,size,poda⟩ := entry
  have votes := (verifyLane_eq_ok.mp h).2
  unfold parentEntry at new ⊢
  cases hf : round.parentCut.find? fun e => e.1=laneId with
  | none =>
    rw [hf] at votes
    exact ⟨(verifyVotes_eq_ok.mp votes).2,by simp⟩
  | some last =>
    rw [hf] at votes
    obtain ⟨larger,votes⟩ := votes.resolve_left (new last hf)
    refine ⟨(verifyVotes_eq_ok.mp votes).2,?_⟩
    rintro _ ⟨⟩
    exact larger

theorem cutValid_iff_of_verifyPoda {proposal : ConsensusProposal}
    (h : round.verifyPoda blst proposal=.ok ()) :
    round.CutValid blst proposal.cut ↔ round.CutRegular proposal.cut := by
  have lane := (verifyPoda_eq_ok.mp h).2
  constructor
  · intro valid
    refine ⟨valid.lanes,?_,?_⟩
    · intro entry he last hl same
      obtain parent|new := valid.entries entry he
      · rw [parent] at hl
        exact (Option.some.inj hl).symm
      · -- The size would have to grow although the data proposal stays.
        have size := (valid.sizes entry he last hl).mp same.symm
        have larger := new.larger last hl
        rw [size] at larger
        exact absurd larger (UInt64.lt_irrefl _)
    · intro entry he new
      obtain parent|voted := valid.entries entry he
      · exact absurd rfl (new entry parent)
      · exact voted.bonded
  · intro regular
    refine ⟨regular.lanes,?_,?_⟩
    · intro entry he
      by_cases new : ∀ last,round.parentEntry entry.1=some last → last.2.1≠entry.2.1
      · obtain ⟨verified,larger⟩ := verified_of_verifyLane (lane entry he) new
        exact Or.inr ⟨verified,regular.bonded entry he new,larger⟩
      · push Not at new
        obtain ⟨last,hl,same⟩ := new
        left
        rw [hl,regular.kept entry he last hl same]
    · intro entry he last hl
      constructor
      · intro same
        rw [regular.kept entry he last hl same.symm]
      · intro size
        by_contra other
        have new : ∀ last,round.parentEntry entry.1=some last → last.2.1≠entry.2.1 := by
          intro last' hl' same
          rw [hl] at hl'
          obtain rfl := Option.some.inj hl'
          exact other same.symm
        have larger := (verified_of_verifyLane (lane entry he) new).2 last hl
        rw [size] at larger
        exact UInt64.lt_irrefl _ larger

end BFTRoundState

namespace Consensus

variable {PublicKey BlstSignature : Type} {self : Consensus PublicKey BlstSignature}
  {n m : Node}

/-- The proposals that a node has accepted have been verified. -/
def VerifiedPodas (node : Consensus PublicKey BlstSignature) (n : Node) : Prop :=
  ∀ entry ∈ n.log,∀ prepare,entry.deed=.accepted prepare →
    entry.round.verifyPoda node.crypto.toBlst prepare.2.1=.ok ()

theorem VerifiedPodas.of_log (h : VerifiedPodas self n) {entries : List Entry}
    (hl : m.log=n.log++entries) (he : ∀ entry ∈ entries,∀ prepare,entry.deed≠.accepted prepare) :
    VerifiedPodas self m := by
  unfold VerifiedPodas
  rw [hl]
  refine List.forall_mem_append.mpr ⟨h,?_⟩
  intro entry hm prepare hd
  exact absurd hd (he entry hm prepare)

theorem verifiedPodas_change (h : VerifiedPodas self n) (hc : self.Change n m) :
    VerifiedPodas self m := by
  cases hc with
  | accepted prepare _ _ _ _ poda =>
    refine List.forall_mem_append.mpr ⟨h,?_⟩
    intro entry he prepare' hd
    obtain rfl := List.mem_singleton.mp he
    obtain rfl := Deed.accepted.inj hd
    exact poda
  | joined qc => exact h.of_log (List.append_assoc _ _ _) (by simp)
  | candidates | staking | schedule | retag | push | reset | leader =>
    exact h.of_log (List.append_nil _).symm (by simp)
  | _ => exact h.of_log rfl (by simp)

/-- The cut of a proposal that a node accepts is valid exactly if it names each lane once, keeps
the whole entry where it keeps the data proposal, and new ones have votes of bonded validators. -/
theorem cutValid_iff (n : Node) (run : self.Run n) (entry : Entry) (he : entry ∈ n.log)
    (prepare : Prepare) (hd : entry.deed=.accepted prepare) :
    entry.round.CutValid self.crypto.toBlst prepare.2.1.cut ↔
      entry.round.CutRegular prepare.2.1.cut := by
  have verified : VerifiedPodas self n := by
    refine run_induction (I := VerifiedPodas self) ?_ ?_ run
    · intro n fresh entry he prepare hd
      obtain ⟨_,sent⟩|sent := fresh.log entry he
      · simp [sent] at hd
      · simp [sent] at hd
    · intro n m _ ih hc
      exact verifiedPodas_change ih hc
  exact BFTRoundState.cutValid_iff_of_verifyPoda (verified entry he prepare hd)

end Consensus

namespace FourValidators

open Consensus

def paidPrepared : Node := fourth.after (prepareOf paid) (started fourth)

def paidCommitted : Node := fourth.after (commitOf paidDigest) paidPrepared

/-- The leader of the second slot sends a proposal. -/
def nextPrepare (proposal : ConsensusProposal) : ConsensusInput :=
  .netMessage [2] (.prepare proposal (.commitQC
    ⟨⟨(toVec (Bytes.hex paidDigest.toList)).toOption.getD [],[[1],[2],[3]]⟩,⟨⟩⟩) 0) 0

def inflatedPrepared : Node := fourth.after (nextPrepare inflated) paidCommitted

def widenedPrepared : Node := fourth.after (nextPrepare widened) paidCommitted

/-- The entry accepts the proposal, after a parent with the cut. -/
def acceptsAfter (proposal : ConsensusProposal) (parentCut : Cut) (entry : Entry) : Bool :=
  match entry.deed with
  | .accepted prepare => prepare.2.1=proposal ∧ entry.round.parentCut=parentCut ∧
      entry.round.staking.computeF+1 ≤ entry.round.staking.computeVotingPower
        ([[1],[2]].filter fun v => entry.round.staking.isBonded v)
  | _ => false

theorem accepts_and_inflates :
    (fourth.handle 0 (prepareOf paid) (started fourth)).1.panics=false ∧
    (fourth.handle 0 (commitOf paidDigest) paidPrepared).1.panics=false ∧
    ((fourth.handle 0 (nextPrepare widened) paidCommitted).1.panics=false ∧
      widenedPrepared.log.any (acceptsAfter widened paid.cut)=true) ∧
    (fourth.handle 0 (nextPrepare inflated) paidCommitted).1.panics=false ∧
      inflatedPrepared.log.any (acceptsAfter inflated paid.cut)=true := by
  decide +kernel

theorem run_paidCommitted : fourth.Run paidCommitted :=
  ((run_started commits_and_forces.1.1).after accepts_and_inflates.1).after
    accepts_and_inflates.2.1

theorem entry_of_acceptsAfter {log : List Entry} {proposal : ConsensusProposal}
    {parentCut : Cut} (h : log.any (acceptsAfter proposal parentCut)=true) :
    ∃ entry ∈ log,∃ prepare,entry.deed=.accepted prepare ∧ prepare.2.1=proposal ∧
      entry.round.parentCut=parentCut ∧
      entry.round.staking.computeF+1 ≤ entry.round.staking.computeVotingPower
        ([[1],[2]].filter fun v => entry.round.staking.isBonded v) := by
  obtain ⟨entry,he,accepts⟩ := List.any_eq_true.mp h
  refine ⟨entry,he,?_⟩
  unfold acceptsAfter at accepts
  split at accepts
  · next prepare hd => exact ⟨prepare,hd,of_decide_eq_true accepts⟩
  · cases accepts

theorem cutRegular_widened {round : BFTRoundState} (parent : round.parentCut=paid.cut)
    (votes : round.staking.computeF+1 ≤ round.staking.computeVotingPower
      ([[1],[2]].filter fun v => round.staking.isBonded v)) : round.CutRegular widened.cut := by
  refine ⟨by decide,?_,?_⟩
  all_goals
    intro entry he
    unfold BFTRoundState.parentEntry
    rw [parent]
    obtain kept|added := List.mem_append.mp he
  · intro last hl _
    obtain rfl := List.mem_singleton.mp kept
    simpa [paid,paying,eq_comm] using hl
  · intro last hl _
    obtain rfl := List.mem_singleton.mp added
    simp [paid,paying] at hl
  · intro new
    obtain rfl := List.mem_singleton.mp kept
    exact absurd rfl (new _ rfl)
  · intro _
    obtain rfl := List.mem_singleton.mp added
    exact votes

end FourValidators

open FourValidators in
/-- The second cut keeps the lane of the first one and has another, which two bonded validators
have voted for. -/
theorem Consensus.cutValid_iff_widened : ∃ entry ∈ widenedPrepared.log,
    ∃ prepare,entry.deed=.accepted prepare ∧ prepare.2.1=widened ∧
      entry.round.CutValid fourth.crypto.toBlst widened.cut := by
  have facts := accepts_and_inflates.2.2.1
  have run : fourth.Run widenedPrepared := run_paidCommitted.after facts.1
  obtain ⟨entry,he,prepare,hd,same,parent,votes⟩ := entry_of_acceptsAfter facts.2
  have valid := (cutValid_iff _ run entry he prepare hd).mpr (by
    rw [same]
    exact cutRegular_widened parent votes)
  rw [same] at valid
  exact ⟨entry,he,prepare,hd,same,valid⟩

open FourValidators in
/-- The size of a lane grows although its data proposal stays, without votes. -/
theorem Consensus.not_cutValid : ¬∀ n : Node,fourth.Run n → ∀ entry ∈ n.log,
    ∀ prepare,entry.deed=.accepted prepare →
      entry.round.CutValid fourth.crypto.toBlst prepare.2.1.cut := by
  intro valid
  have facts := accepts_and_inflates.2.2.2
  have run : fourth.Run inflatedPrepared := run_paidCommitted.after facts.1
  obtain ⟨entry,he,prepare,hd,same,parent,_⟩ := entry_of_acceptsAfter facts.2
  have sizes := (valid _ run entry he prepare hd).sizes
  rw [same] at sizes
  have last : entry.round.parentEntry [1]=paid.cut.head? := by
    unfold BFTRoundState.parentEntry
    rw [parent]
    rfl
  have size := (sizes _ List.mem_cons_self _ last).mp rfl
  exact absurd size (by decide)

end TruthSeeker
