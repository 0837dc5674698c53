import TruthSeeker.Crypto.Aggregation
import TruthSeeker.Mempool.State

namespace TruthSeeker

open Outcome

section
variable {PublicKey BlstSignature : Type}

/-- Only the signatures of the current validators count. -/
def LaneEntryMetadata.filteredSignatures (self : LaneEntryMetadata) (staking : Staking) :
    List ValidatorDAG :=
  self.signatures.filter fun signedMsg => signedMsg.signature.validator∈staking.bonded

def LaneEntryMetadata.filteredValidators (self : LaneEntryMetadata) (staking : Staking) :
    List ValidatorPublicKey :=
  (self.filteredSignatures staking).map fun s => s.signature.validator

/-- The signatures of more than f. -/
def LaneEntryMetadata.HasVotes (self : LaneEntryMetadata) (staking : Staking) : Prop :=
  ¬staking.computeVotingPower (self.filteredValidators staking)<staking.computeF+1

instance {self : LaneEntryMetadata} {staking : Staking} : Decidable (self.HasVotes staking) :=
  inferInstanceAs (Decidable (¬_))

namespace LanesStorage

variable (crypto : BlstCrypto PublicKey BlstSignature) (self : LanesStorage) (laneId : LaneId)
variable (staking : Staking)
variable (previousCommittedCar : Option (LaneId × DataProposalHash × LaneBytesSize × PoDA))

/-- The entries from `dpHash` down, to the first that has been committed or has enough votes,
or to an error of its aggregation. It is `none` for a walk that never ends. -/
def latestCarFrom :
    Nat → DataProposalHash → Option (Outcome (Option (DataProposalHash × LaneBytesSize × PoDA)))
  | 0,_ => none
  | fuel+1,dpHash =>
      match self.getMetadataByHash laneId dpHash with
      | none => some (.ok none)
      | some le =>
          match previousCommittedCar.filter (fun car => car.2.1=dpHash) with
          | some car => some (.ok (some (car.2.1,le.cumulSize,car.2.2.2)))
          | none =>
              if le.HasVotes staking then
                match crypto.aggregate (dpHash,le.cumulSize) (le.filteredSignatures staking) with
                | .ok poda => some (.ok (some (dpHash,le.cumulSize,poda.signature)))
                | .error e => some (.error e)
              else
                match le.parentDataProposalHash with
                | some parentDpHash => latestCarFrom fuel parentDpHash
                | none => some (.ok none)

/-- An error of the aggregation is logged. -/
def getLatestCar : Option (Option (DataProposalHash × LaneBytesSize × PoDA)) :=
  match self.getLaneHashTip laneId with
  | none => some none
  | some tipDpHash =>
      (self.latestCarFrom crypto laneId staking previousCommittedCar
          (self.byHashMetadata.size+1) tipDpHash).map fun
        | .ok car => car
        | .error _ => none

end LanesStorage

namespace Mempool

variable (env : MempoolEnv PublicKey BlstSignature) (self : Mempool)

/-- The lanes in order, each with its latest data proposal or as it was in the previous cut. -/
def cutOfLanes (staking : Staking) (previousCut : Cut) : List LaneId → Option Cut
  | [] => some []
  | laneId::laneIds => do
      let previousEntry := findLane previousCut laneId
      let car ← self.lanes.getLatestCar env.crypto laneId staking previousEntry
      let cut ← cutOfLanes staking previousCut laneIds
      match car with
      | some car => return (laneId,car)::cut
      | none => return previousEntry.toList++cut

/-- The cut of the last committed proposal. -/
def previousCut : Cut :=
  match self.lastCcp with
  | none => []
  | some ccp => ccp.consensusProposal.cut

def handleQuerynewcut (staking : Staking) : Option Cut :=
  self.cutOfLanes env staking self.previousCut self.lanes.lanesTip.keys

end Mempool

end

end TruthSeeker
