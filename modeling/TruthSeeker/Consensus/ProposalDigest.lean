import TruthSeeker.Consensus.Network

namespace TruthSeeker

open Bytes

namespace ConsensusStakingAction

/-- What applying the action reads: the validator that is bonded, or the lane that pays and
the size that it pays for. -/
def effect : ConsensusStakingAction → ValidatorPublicKey ⊕ LaneId × LaneBytesSize
  | .bond candidate => .inl candidate.signature.validator
  | .payFeesForDaDi laneId cumulSize => .inr (laneId,cumulSize)

/-- The kind of an action and the length of its key are not digested. -/
def undigested : ConsensusStakingAction → Nat ⊕ Nat
  | .bond candidate => .inl candidate.signature.validator.length
  | .payFeesForDaDi laneId _ => .inr laneId.length

theorem length_of_undigested {a b : ConsensusStakingAction} (hu : a.undigested=b.undigested) :
    (ConsensusProposal.stakingActionBytes a).length=
      (ConsensusProposal.stakingActionBytes b).length := by
  cases a with
  | bond a =>
    cases b with
    | bond b => exact Sum.inl.inj hu
    | payFeesForDaDi laneId cumulSize => cases hu
  | payFeesForDaDi laneId cumulSize =>
    cases b with
    | bond b => cases hu
    | payFeesForDaDi otherId otherSize =>
      have lengths := Sum.inr.inj hu
      simp [ConsensusProposal.stakingActionBytes,lengths]

theorem effect_eq_of_undigested {a b : ConsensusStakingAction} (hu : a.undigested=b.undigested)
    (h : ConsensusProposal.stakingActionBytes a=ConsensusProposal.stakingActionBytes b) :
    a.effect=b.effect := by
  cases a with
  | bond a =>
    cases b with
    | bond b => exact congrArg Sum.inl h
    | payFeesForDaDi laneId cumulSize => cases hu
  | payFeesForDaDi laneId cumulSize =>
    cases b with
    | bond b => cases hu
    | payFeesForDaDi otherId otherSize =>
      obtain ⟨lane,size⟩ := List.append_inj h (Sum.inr.inj hu)
      rw [effect,effect,lane,u64Bytes_injective size]

theorem undigested_eq_of_effect {a b : ConsensusStakingAction} (h : a.effect=b.effect) :
    a.undigested=b.undigested := by
  cases a <;> cases b <;> simp_all [effect,undigested]

end ConsensusStakingAction

namespace ConsensusProposal

/-- An entry of the cut without the certificate of its data. -/
def cutEntry (entry : LaneId × DataProposalHash × LaneBytesSize × PoDA) :
    LaneId × DataProposalHash × LaneBytesSize :=
  (entry.1,entry.2.1,entry.2.2.1)

/-- What applying the proposal, the accounting of the fees and the construction of the block
read. -/
structure SameConsensusData (p q : ConsensusProposal) : Prop where
  slot : p.slot=q.slot
  parentHash : p.parentHash=q.parentHash
  timestamp : p.timestamp=q.timestamp
  cut : p.cut.map cutEntry=q.cut.map cutEntry
  stakingActions :
    p.stakingActions.map ConsensusStakingAction.effect=
      q.stakingActions.map ConsensusStakingAction.effect

/-- The size of a lane is not digested, nor are the lengths of its key and hash. -/
def cutUndigested (entry : LaneId × DataProposalHash × LaneBytesSize × PoDA) :
    Nat × Nat × LaneBytesSize :=
  (entry.1.length,(utf8 entry.2.1).length,entry.2.2.1)

def undigested (self : ConsensusProposal) : List (Nat × Nat × LaneBytesSize) × List (Nat ⊕ Nat) :=
  (self.cut.map cutUndigested,self.stakingActions.map ConsensusStakingAction.undigested)

section Digest

/-- The part of the bytes that one entry of the cut gives. -/
def cutBytes (entry : LaneId × DataProposalHash × LaneBytesSize × PoDA) : Bytes :=
  entry.1++utf8 entry.2.1

theorem length_cutBytes {a b : LaneId × DataProposalHash × LaneBytesSize × PoDA}
    (hu : cutUndigested a=cutUndigested b) : (cutBytes a).length=(cutBytes b).length := by
  obtain ⟨lane,rest⟩ := Prod.mk.inj hu
  obtain ⟨hash,_⟩ := Prod.mk.inj rest
  simp [cutBytes,lane,hash]

theorem cutEntry_eq_of_cutBytes {a b : LaneId × DataProposalHash × LaneBytesSize × PoDA}
    (hu : cutUndigested a=cutUndigested b) (h : cutBytes a=cutBytes b) :
    cutEntry a=cutEntry b := by
  obtain ⟨lane,rest⟩ := Prod.mk.inj hu
  obtain ⟨_,size⟩ := Prod.mk.inj rest
  obtain ⟨sameLane,sameHash⟩ := List.append_inj h lane
  rw [cutEntry,cutEntry,sameLane,utf8_injective sameHash,size]

theorem undigested_of_sameConsensusData {p q : ConsensusProposal} (h : SameConsensusData p q) :
    p.undigested=q.undigested := by
  have view : cutUndigested=fun entry => ((cutEntry entry).1.length,
      (utf8 (cutEntry entry).2.1).length,(cutEntry entry).2.2) := rfl
  have cut : p.cut.map cutUndigested=q.cut.map cutUndigested := by
    have sizes := congrArg (List.map fun e : LaneId × DataProposalHash × LaneBytesSize =>
      (e.1.length,(utf8 e.2.1).length,e.2.2)) h.cut
    rw [view]
    simpa [Function.comp_def] using sizes
  have actions : p.stakingActions.map ConsensusStakingAction.undigested=
      q.stakingActions.map ConsensusStakingAction.undigested := by
    have related : List.Forall₂ (fun a b : ConsensusStakingAction => a.effect=b.effect)
        p.stakingActions q.stakingActions := by
      have mapped := h.stakingActions
      rw [← List.forall₂_eq_eq_eq,List.forall₂_map_left_iff,List.forall₂_map_right_iff] at mapped
      exact mapped
    rw [← List.forall₂_eq_eq_eq,List.forall₂_map_left_iff,List.forall₂_map_right_iff]
    exact related.imp fun _ _ => ConsensusStakingAction.undigested_eq_of_effect
  rw [undigested,undigested,cut,actions]

/-- Given what is not digested, the bytes determine the data. -/
theorem sameConsensusData_of_preimage {p q : ConsensusProposal} (hu : p.undigested=q.undigested)
    (h : p.preimage=q.preimage) : SameConsensusData p q := by
  obtain ⟨cuts,actions⟩ := Prod.mk.inj hu
  simp only [preimage,List.append_assoc] at h
  obtain ⟨slot,rest⟩ := List.append_inj h (by simp)
  obtain ⟨cut,rest⟩ := flatMap_append_inj cutEntry
    (fun _ _ _ _ => length_cutBytes) (fun _ _ _ _ => cutEntry_eq_of_cutBytes) cuts rest
  obtain ⟨stakingActions,rest⟩ := flatMap_append_inj ConsensusStakingAction.effect
    (fun _ _ _ _ => ConsensusStakingAction.length_of_undigested)
    (fun _ _ _ _ => ConsensusStakingAction.effect_eq_of_undigested) actions rest
  obtain ⟨timestamp,parentHash⟩ := List.append_inj rest (by simp)
  have times := ofNatLE_injective 16 _ _ p.timestamp.isLt q.timestamp.isLt timestamp
  exact ⟨u64Bytes_injective slot,utf8_injective parentHash,BitVec.eq_of_toNat_eq times,cut,
    stakingActions⟩

end Digest

/-- Equal hashes fix the data exactly up to what the digest does not read: the sizes of the
lanes, the kinds of the staking actions, and where the keys and hashes end. -/
theorem sameConsensusData_iff (sha3 : Bytes → H256) (p q : ConsensusProposal)
    (hi : Set.InjOn sha3 {p.preimage,q.preimage}) (h : p.hashed sha3=q.hashed sha3) :
    SameConsensusData p q ↔ p.undigested=q.undigested := by
  have digests : sha3 p.preimage=sha3 q.preimage := ByteVec.ext (hex_injective h)
  have preimages : p.preimage=q.preimage := hi (by simp) (by simp) digests
  constructor
  · exact undigested_of_sameConsensusData
  · intro hu
    exact sameConsensusData_of_preimage hu preimages

/-- A proposal whose cut has one entry, of the given size. -/
def oneLane (size : LaneBytesSize) (poda : PoDA) : ConsensusProposal :=
  ⟨1,"parent",[([1],"propA",size,poda)],[],1⟩

theorem sameConsensusData_iff_oneLane :
    SameConsensusData (oneLane 1 default) (oneLane 1 ⟨[1,2,3],[[1,2,3]]⟩) ↔
      (oneLane 1 default).undigested=(oneLane 1 ⟨[1,2,3],[[1,2,3]]⟩).undigested := by
  apply sameConsensusData_iff fun _ => ByteVec.zero 32
  · have same : (oneLane 1 default).preimage=(oneLane 1 ⟨[1,2,3],[[1,2,3]]⟩).preimage := rfl
    simp [same]
  · rfl

/-- Whatever the hash function, two sizes of the same lane have one hash. -/
theorem not_sameConsensusData :
    (∀ sha3 : Bytes → H256,(oneLane 1 default).hashed sha3=(oneLane 2 default).hashed sha3) ∧
      ¬SameConsensusData (oneLane 1 default) (oneLane 2 default) := by
  constructor
  · intro sha3
    rfl
  · intro h
    have sizes := h.cut
    simp [oneLane,cutEntry] at sizes

end ConsensusProposal

end TruthSeeker
