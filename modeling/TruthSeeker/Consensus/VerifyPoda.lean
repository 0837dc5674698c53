import TruthSeeker.Consensus.State

namespace TruthSeeker

open Outcome

section
variable {PublicKey BlstSignature : Type} (blst : Blst PublicKey BlstSignature)

namespace BFTRoundState

variable (self : BFTRoundState)

/-- A data proposal that is new in the cut has votes of more than f, which verify. -/
def verifyVotes (entry : LaneId × DataProposalHash × LaneBytesSize × PoDA) : Outcome Unit := do
  let (laneId,dataProposalHash,laneSize,podaSig) := entry
  let votingPower := self.staking.computeVotingPower podaSig.validators
  ensure (¬votingPower<self.staking.computeF+1)
    (s!"PoDA for lane {ValidatorPublicKey.display laneId} does not have enough validators "++
      "that signed his DataProposal")
  match blst.verifyAggregate (T := DataProposalHash × LaneBytesSize)
      ⟨(dataProposalHash,laneSize),podaSig⟩ with
  | .ok true => .ok ()
  | .ok false =>
      err "Failed to aggregate signatures into valid one. Messages might be different."
  | .error (.err e) => err s!"Failed to verify PoDA: {e}"
  | .error fault => .error fault

def verifyLane (entry : LaneId × DataProposalHash × LaneBytesSize × PoDA) : Outcome Unit := do
  let (laneId,dataProposalHash,laneSize,_) := entry
  ensure (self.staking.isKnown laneId=true)
    s!"Lane {ValidatorPublicKey.display laneId} is in cut but is not a valid lane"
  match self.parentCut.find? (fun e => e.1=laneId) with
  | none => self.verifyVotes blst entry
  | some cut =>
      -- The same data proposal was in the last cut: nothing else of the entry is looked at.
      if cut.2.1=dataProposalHash then .ok ()
      else do
        ensure (¬laneSize≤ cut.2.2.1)
          (s!"DataProposal {dataProposalHash} from lane {ValidatorPublicKey.display laneId} "++
            "is smaller than the last one in the cut")
        self.verifyVotes blst entry

/-- The lanes in order, up to the first that fails. -/
def verifyLanes : Cut → Outcome Unit
  | [] => .ok ()
  | entry::cut => do
      self.verifyLane blst entry
      verifyLanes cut

def verifyPoda (consensusProposal : ConsensusProposal) : Outcome Unit := do
  ensure (∀ entry ∈ self.parentCut,∃ e ∈ consensusProposal.cut,e.1=entry.1)
    "Cut does not include all lanes from the previous cut"
  self.verifyLanes blst consensusProposal.cut

variable {blst self} {cut : Cut} {laneId : LaneId} {hash : DataProposalHash}
  {size : LaneBytesSize} {poda : PoDA}

theorem verifyVotes_eq_ok : self.verifyVotes blst (laneId,hash,size,poda)=.ok () ↔
    ¬self.staking.computeVotingPower poda.validators<self.staking.computeF+1 ∧
      blst.verifyAggregate (⟨(hash,size),poda⟩ : Signed _ _)=.ok true := by
  unfold verifyVotes
  rw [bind_eq_ok]
  simp only [ensure_eq_ok]
  have checked : (match blst.verifyAggregate (⟨(hash,size),poda⟩ : Signed _ _) with
      | .ok true => .ok ()
      | .ok false =>
          err "Failed to aggregate signatures into valid one. Messages might be different."
      | .error (.err e) => err s!"Failed to verify PoDA: {e}"
      | .error fault => .error fault : Outcome Unit)=.ok () ↔
      blst.verifyAggregate (⟨(hash,size),poda⟩ : Signed _ _)=.ok true := by
    cases blst.verifyAggregate (⟨(hash,size),poda⟩ : Signed _ _) with
    | ok valid => cases valid <;> simp
    | error fault => cases fault <;> simp
  rw [checked]
  exact ⟨fun ⟨_,hp,hv⟩ => ⟨hp,hv⟩,fun ⟨hp,hv⟩ => ⟨(),hp,hv⟩⟩

theorem verifyLane_eq_ok : self.verifyLane blst (laneId,hash,size,poda)=.ok () ↔
    self.staking.isKnown laneId=true ∧
      match self.parentCut.find? (fun e => e.1=laneId) with
      | none => self.verifyVotes blst (laneId,hash,size,poda)=.ok ()
      | some last => last.2.1=hash ∨ last.2.2.1<size ∧
          self.verifyVotes blst (laneId,hash,size,poda)=.ok () := by
  unfold verifyLane
  rw [bind_eq_ok]
  simp only [ensure_eq_ok]
  cases self.parentCut.find? (fun e => e.1=laneId) with
  | none => exact ⟨fun ⟨_,hk,hv⟩ => ⟨hk,hv⟩,fun ⟨hk,hv⟩ => ⟨(),hk,hv⟩⟩
  | some last =>
    by_cases same : last.2.1=hash
    · simp [same]
    · simp [same,bind_eq_ok]

theorem verifyLanes_eq_ok : self.verifyLanes blst cut=.ok () ↔
    ∀ entry ∈ cut,self.verifyLane blst entry=.ok () := by
  induction cut with
  | nil => simp [verifyLanes]
  | cons entry cut ih =>
    unfold verifyLanes
    rw [bind_eq_ok,List.forall_mem_cons,← ih]
    exact ⟨fun ⟨_,hl,hc⟩ => ⟨hl,hc⟩,fun ⟨hl,hc⟩ => ⟨(),hl,hc⟩⟩

theorem verifyPoda_eq_ok {consensusProposal : ConsensusProposal} :
    self.verifyPoda blst consensusProposal=.ok () ↔
      (∀ entry ∈ self.parentCut,∃ e ∈ consensusProposal.cut,e.1=entry.1) ∧
      ∀ entry ∈ consensusProposal.cut,self.verifyLane blst entry=.ok () := by
  unfold verifyPoda
  rw [bind_eq_ok,← verifyLanes_eq_ok]
  simp only [ensure_eq_ok]
  exact ⟨fun ⟨_,hl,hc⟩ => ⟨hl,hc⟩,fun ⟨hl,hc⟩ => ⟨(),hl,hc⟩⟩

end BFTRoundState

end

end TruthSeeker
