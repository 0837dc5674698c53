import TruthSeeker.Mempool.Cut

namespace TruthSeeker

open Outcome ParentWalk

/-- Whether a parent is the tip of the lane, is not stored, or makes a fork. -/
def CanBePutOnTop.of (tip : Option DataProposalHash) (contains : DataProposalHash → Bool)
    (parentDataProposalHash : Option DataProposalHash) : CanBePutOnTop :=
  if parentDataProposalHash=tip then .yes
  else
    match parentDataProposalHash with
    | none => .fork
    | some dpParentHash => if contains dpParentHash then .fork else .no

/-- What an implementation of the storage of lanes provides. -/
class Storage (σ : Type) where
  contains : σ → LaneId → DataProposalHash → Bool
  getMetadataByHash : σ → LaneId → DataProposalHash → Outcome (Option LaneEntryMetadata)
  getDpByHash : σ → LaneId → DataProposalHash → Outcome (Option DataProposal)
  pop : σ → LaneId →
    Outcome (Option (DataProposalHash × LaneEntryMetadata × DataProposal)) × σ
  put : (Bytes → H256) → σ → LaneId → LaneEntryMetadata × DataProposal → Outcome Unit × σ
  putNoVerification : (Bytes → H256) → σ → LaneId → LaneEntryMetadata × DataProposal → σ
  addSignatures : σ → LaneId → DataProposalHash → List ValidatorDAG →
    Outcome (List ValidatorDAG) × σ
  getLaneIds : σ → List LaneId
  getLaneHashTip : σ → LaneId → Option DataProposalHash
  getLaneSizeTip : σ → LaneId → Option LaneBytesSize
  updateLaneTip : σ → LaneId → DataProposalHash → LaneBytesSize →
    Option (DataProposalHash × LaneBytesSize) × σ
  /-- No lane has more entries: a bound for the loops over them. -/
  entries : σ → LaneId → Nat

namespace Storage

section Defaults
variable {σ : Type} [Storage σ] (sha3 : Bytes → H256) (self : σ) (laneId : LaneId)

def getLaneSizeAt (dpHash : DataProposalHash) : Outcome LaneBytesSize := do
  match ← getMetadataByHash self laneId dpHash with
  | none => return 0
  | some entry => return entry.cumulSize

/-- Takes entries out from the tip until it finds the one of the previous cut, which it puts
back. -/
def popUntil (previousCommittedDpHash : Option DataProposalHash) : Nat → σ → Outcome Unit × σ
  | 0,self => (.ok (),self)
  | fuel+1,self =>
      match pop self laneId with
      | (.error e,next) => (.error e,next)
      | (.ok none,next) => (.ok (),next)
      | (.ok (some (dpHash,le)),next) =>
          if some dpHash=previousCommittedDpHash then
            (.ok (),putNoVerification sha3 next laneId le)
          else popUntil previousCommittedDpHash fuel next

/-- The tip becomes the data proposal of the new cut, which may leave a gap in the lane. -/
def cleanAndUpdateLane (previousCommittedDpHash : Option DataProposalHash)
    (newCommittedDpHash : DataProposalHash) (newCommittedSize : LaneBytesSize) :
    Outcome Unit × σ :=
  let tipLane := getLaneHashTip self laneId
  let cleaned :=
    if tipLane≠previousCommittedDpHash ∧ tipLane≠some newCommittedDpHash then
      popUntil sha3 laneId previousCommittedDpHash (entries self laneId+1) self
    else (.ok (),self)
  match cleaned with
  | (.error e,next) => (.error e,next)
  | (.ok (),next) => (.ok (),(updateLaneTip next laneId newCommittedDpHash newCommittedSize).2)

/-- The entries from `to` down to `from`, which is left out. It is `none` for a stream that
never ends. -/
def getEntriesMetadataBetweenHashes (fromDataProposalHash toDataProposalHash :
    Option DataProposalHash) : Option (Outcome (Walk DataProposalHash LaneEntryMetadata)) :=
  match toDataProposalHash.or (getLaneHashTip self laneId) with
  | none => some (.ok ⟨[],none⟩)
  | some hash =>
      walkM (getMetadataByHash self laneId) LaneEntryMetadata.parentDataProposalHash
        (fun h => some h=fromDataProposalHash) (entries self laneId+1) hash

/-- An entry with its data proposal: an entry without one is missing. -/
def getEntryByHash (dpHash : DataProposalHash) :
    Outcome (Option (LaneEntryMetadata × DataProposal)) := do
  match ← getMetadataByHash self laneId dpHash with
  | none => return none
  | some metadata => return (← getDpByHash self laneId dpHash).map fun dp => (metadata,dp)

/-- The same entries with their data proposals, up to the first that lacks one. -/
def getEntriesBetweenHashes (fromDataProposalHash toDataProposalHash :
    Option DataProposalHash) :
    Option (Outcome (Walk DataProposalHash (LaneEntryMetadata × DataProposal))) :=
  match toDataProposalHash.or (getLaneHashTip self laneId) with
  | none => some (.ok ⟨[],none⟩)
  | some hash =>
      walkM (getEntryByHash self laneId) (fun entry => entry.1.parentDataProposalHash)
        (fun h => some h=fromDataProposalHash) (entries self laneId+1) hash

def getPendingEntriesInLane (lastCut : Option Cut) :
    Option (Outcome (Walk DataProposalHash LaneEntryMetadata)) :=
  let lastCommittedDpHash :=
    lastCut.bind fun cut => (cut.find? (fun car => car.1=laneId)).map fun car => car.2.1
  getEntriesMetadataBetweenHashes self laneId lastCommittedDpHash (getLaneHashTip self laneId)

variable {PublicKey BlstSignature : Type} (crypto : BlstCrypto PublicKey BlstSignature)
variable (staking : Staking)
variable (previousCommittedCar : Option (LaneId × DataProposalHash × LaneBytesSize × PoDA))

/-- The loop of `getLatestCar` over the lookups of a lane. -/
def latestCarFrom (lookup : DataProposalHash → Outcome (Option LaneEntryMetadata)) :
    Nat → DataProposalHash → Option (Outcome (Option (DataProposalHash × LaneBytesSize × PoDA)))
  | 0,_ => none
  | fuel+1,dpHash =>
      match lookup dpHash with
      | .error e => some (.error e)
      | .ok none => some (.ok none)
      | .ok (some le) =>
          match previousCommittedCar.filter (fun car => car.2.1=dpHash) with
          | some car => some (.ok (some (car.2.1,le.cumulSize,car.2.2.2)))
          | none =>
              if le.HasVotes staking then
                match crypto.aggregate (dpHash,le.cumulSize) (le.filteredSignatures staking) with
                | .ok poda => some (.ok (some (dpHash,le.cumulSize,poda.signature)))
                -- The error of the aggregation is logged.
                | .error _ => some (.ok none)
              else
                match le.parentDataProposalHash with
                | some parentDpHash => latestCarFrom lookup fuel parentDpHash
                | none => some (.ok none)

/-- The latest entry of the lane that has been committed or has enough votes. -/
def getLatestCar : Option (Outcome (Option (DataProposalHash × LaneBytesSize × PoDA))) :=
  match getLaneHashTip self laneId with
  | none => some (.ok none)
  | some tipDpHash =>
      latestCarFrom crypto staking previousCommittedCar (getMetadataByHash self laneId)
        (entries self laneId+1) tipDpHash

end Defaults

/-- The calls of the storage. -/
inductive Op where
  | put (laneId : LaneId) (entry : LaneEntryMetadata × DataProposal)
  | putNoVerification (laneId : LaneId) (entry : LaneEntryMetadata × DataProposal)
  | pop (laneId : LaneId)
  | addSignatures (laneId : LaneId) (dpHash : DataProposalHash) (voteMsgs : List ValidatorDAG)
  | updateLaneTip (laneId : LaneId) (dpHash : DataProposalHash) (size : LaneBytesSize)
  | cleanAndUpdateLane (laneId : LaneId) (previousCommittedDpHash : Option DataProposalHash)
      (newCommittedDpHash : DataProposalHash) (newCommittedSize : LaneBytesSize)
  | contains (laneId : LaneId) (dpHash : DataProposalHash)
  | getMetadataByHash (laneId : LaneId) (dpHash : DataProposalHash)
  | getDpByHash (laneId : LaneId) (dpHash : DataProposalHash)
  | getLaneSizeAt (laneId : LaneId) (dpHash : DataProposalHash)
  | getLaneIds
  | getLaneHashTip (laneId : LaneId)
  | getLaneSizeTip (laneId : LaneId)
  | getEntriesMetadataBetweenHashes (laneId : LaneId)
      (fromDataProposalHash toDataProposalHash : Option DataProposalHash)
  | getEntriesBetweenHashes (laneId : LaneId)
      (fromDataProposalHash toDataProposalHash : Option DataProposalHash)
  | getPendingEntriesInLane (laneId : LaneId) (lastCut : Option Cut)
  | getLatestCar (laneId : LaneId) (staking : Staking)
      (previousCommittedCar : Option (LaneId × DataProposalHash × LaneBytesSize × PoDA))

/-- The values that the calls return. -/
inductive Answer where
  | done
  | popped (entry : Option (DataProposalHash × LaneEntryMetadata × DataProposal))
  | signatures (signatures : List ValidatorDAG)
  | tip (tip : Option (DataProposalHash × LaneBytesSize))
  | stored (stored : Bool)
  | metadata (metadata : Option LaneEntryMetadata)
  | dataProposal (dataProposal : Option DataProposal)
  | size (size : LaneBytesSize)
  | laneIds (laneIds : List LaneId)
  | hashTip (hash : Option DataProposalHash)
  | sizeTip (size : Option LaneBytesSize)
  | metadataStream (walk : Walk DataProposalHash LaneEntryMetadata)
  | entryStream (walk : Walk DataProposalHash (LaneEntryMetadata × DataProposal))
  | car (car : Option (DataProposalHash × LaneBytesSize × PoDA))

/-- The value of a call, unless it fails; a loop that never ends has no outcome. -/
abbrev Returned := Option (Outcome Answer)

section Calls
variable {σ : Type} [Storage σ] {PublicKey BlstSignature : Type}

def call (sha3 : Bytes → H256) (crypto : BlstCrypto PublicKey BlstSignature) (self : σ) :
    Op → Returned × σ
  | .put laneId entry =>
      let (r,next) := put sha3 self laneId entry
      (some (r.map fun _ => .done),next)
  | .putNoVerification laneId entry =>
      (some (.ok .done),putNoVerification sha3 self laneId entry)
  | .pop laneId =>
      let (r,next) := pop self laneId
      (some (r.map .popped),next)
  | .addSignatures laneId dpHash voteMsgs =>
      let (r,next) := addSignatures self laneId dpHash voteMsgs
      (some (r.map .signatures),next)
  | .updateLaneTip laneId dpHash size =>
      let (tip,next) := updateLaneTip self laneId dpHash size
      (some (.ok (.tip tip)),next)
  | .cleanAndUpdateLane laneId previous new size =>
      let (r,next) := cleanAndUpdateLane sha3 self laneId previous new size
      (some (r.map fun _ => .done),next)
  | .contains laneId dpHash => (some (.ok (.stored (contains self laneId dpHash))),self)
  | .getMetadataByHash laneId dpHash =>
      (some ((getMetadataByHash self laneId dpHash).map .metadata),self)
  | .getDpByHash laneId dpHash => (some ((getDpByHash self laneId dpHash).map .dataProposal),self)
  | .getLaneSizeAt laneId dpHash => (some ((getLaneSizeAt self laneId dpHash).map .size),self)
  | .getLaneIds => (some (.ok (.laneIds (getLaneIds self))),self)
  | .getLaneHashTip laneId => (some (.ok (.hashTip (getLaneHashTip self laneId))),self)
  | .getLaneSizeTip laneId => (some (.ok (.sizeTip (getLaneSizeTip self laneId))),self)
  | .getEntriesMetadataBetweenHashes laneId fromHash toHash =>
      ((getEntriesMetadataBetweenHashes self laneId fromHash toHash).map
        (Except.map .metadataStream),self)
  | .getEntriesBetweenHashes laneId fromHash toHash =>
      ((getEntriesBetweenHashes self laneId fromHash toHash).map (Except.map .entryStream),self)
  | .getPendingEntriesInLane laneId lastCut =>
      ((getPendingEntriesInLane self laneId lastCut).map (Except.map .metadataStream),self)
  | .getLatestCar laneId staking previousCommittedCar =>
      ((getLatestCar self laneId crypto staking previousCommittedCar).map (Except.map .car),self)

end Calls

end Storage

namespace LanesStorage

/-- The storage over the two partitions of fjall. -/
instance : Storage LanesStorage where
  contains := contains
  getMetadataByHash self laneId dpHash := .ok (self.getMetadataByHash laneId dpHash)
  getDpByHash self laneId dpHash := .ok (self.getDpByHash laneId dpHash)
  pop := pop
  put := put
  putNoVerification := putNoVerification
  addSignatures := addSignatures
  getLaneIds self := self.lanesTip.keys
  getLaneHashTip := getLaneHashTip
  getLaneSizeTip := getLaneSizeTip
  updateLaneTip self laneId dpHash size :=
    (self.lanesTip[laneId]?,self.updateLaneTip laneId dpHash size)
  entries self _ := self.byHashMetadata.size

section Defaults
variable {sha3 : Bytes → H256} {self : LanesStorage} {laneId : LaneId}

theorem canBePutOnTop_eq (parent : Option DataProposalHash) : self.canBePutOnTop laneId parent=
    CanBePutOnTop.of (self.getLaneHashTip laneId) (self.contains laneId) parent := rfl

theorem getLaneSizeAt_eq (hash : DataProposalHash) :
    Storage.getLaneSizeAt self laneId hash=.ok (self.getLaneSizeAt laneId hash) := by
  unfold Storage.getLaneSizeAt getLaneSizeAt
  simp only [Storage.getMetadataByHash]
  cases self.getMetadataByHash laneId hash with
  | none => rfl
  | some entry => rfl

theorem popUntil_eq (previous : Option DataProposalHash) (fuel : Nat) :
    Storage.popUntil sha3 laneId previous fuel self=popUntil sha3 laneId previous fuel self := by
  induction fuel generalizing self with
  | zero => rfl
  | succ fuel ih =>
    unfold Storage.popUntil popUntil
    simp only [Storage.pop,Storage.putNoVerification,ih]
    generalize self.pop laneId=popped
    obtain ⟨_|_|_,next⟩ := popped
    · rfl
    · rfl
    · rfl

theorem cleanAndUpdateLane_eq (previous : Option DataProposalHash) (new : DataProposalHash)
    (size : LaneBytesSize) : Storage.cleanAndUpdateLane sha3 self laneId previous new size=
      self.cleanAndUpdateLane sha3 laneId previous new size := by
  unfold Storage.cleanAndUpdateLane cleanAndUpdateLane
  simp only [popUntil_eq,Storage.getLaneHashTip,Storage.entries,Storage.updateLaneTip]
  generalize (if self.getLaneHashTip laneId≠previous ∧ self.getLaneHashTip laneId≠some new then
    popUntil sha3 laneId previous (self.byHashMetadata.size+1) self else (.ok (),self))=cleaned
  obtain ⟨_|_,next⟩ := cleaned
  · rfl
  · rfl

theorem getEntryByHash_eq (hash : DataProposalHash) :
    Storage.getEntryByHash self laneId hash=.ok (self.getEntryByHash laneId hash) := by
  unfold Storage.getEntryByHash getEntryByHash
  simp only [Storage.getMetadataByHash,Storage.getDpByHash]
  cases self.getMetadataByHash laneId hash with
  | none => rfl
  | some metadata => cases self.getDpByHash laneId hash with
    | none => rfl
    | some dp => rfl

theorem getEntriesMetadataBetweenHashes_eq (fromHash toHash : Option DataProposalHash) :
    Storage.getEntriesMetadataBetweenHashes self laneId fromHash toHash=
      (self.getEntriesMetadataBetweenHashes laneId fromHash toHash).map .ok := by
  unfold Storage.getEntriesMetadataBetweenHashes getEntriesMetadataBetweenHashes
  simp only [Storage.getLaneHashTip,Storage.entries]
  cases toHash.or (self.getLaneHashTip laneId) with
  | none => rfl
  | some hash => exact walkM_eq_walk (fun _ => rfl) _ _

theorem getEntriesBetweenHashes_eq (fromHash toHash : Option DataProposalHash) :
    Storage.getEntriesBetweenHashes self laneId fromHash toHash=
      (self.getEntriesBetweenHashes laneId fromHash toHash).map .ok := by
  unfold Storage.getEntriesBetweenHashes getEntriesBetweenHashes
  simp only [Storage.getLaneHashTip,Storage.entries]
  cases toHash.or (self.getLaneHashTip laneId) with
  | none => rfl
  | some hash => exact walkM_eq_walk getEntryByHash_eq _ _

variable {PublicKey BlstSignature : Type} (crypto : BlstCrypto PublicKey BlstSignature)
variable (staking : Staking)
variable (previousCar : Option (LaneId × DataProposalHash × LaneBytesSize × PoDA))

private theorem latestCarFrom_eq (fuel : Nat) (hash : DataProposalHash) :
    Storage.latestCarFrom crypto staking previousCar (Storage.getMetadataByHash self laneId) fuel
        hash=
      (self.latestCarFrom crypto laneId staking previousCar fuel hash).map fun
        | .ok car => .ok car
        | .error _ => .ok none := by
  induction fuel generalizing hash with
  | zero => rfl
  | succ fuel ih =>
    unfold Storage.latestCarFrom latestCarFrom
    simp only [Storage.getMetadataByHash]
    cases self.getMetadataByHash laneId hash with
    | none => rfl
    | some le =>
      dsimp only
      cases previousCar.filter (fun car => car.2.1=hash) with
      | some car => rfl
      | none =>
        dsimp only
        by_cases hv : le.HasVotes staking
        · rw [if_pos hv,if_pos hv]
          cases crypto.aggregate (hash,le.cumulSize) (le.filteredSignatures staking) with
          | ok poda => rfl
          | error e => rfl
        · rw [if_neg hv,if_neg hv]
          cases le.parentDataProposalHash with
          | none => rfl
          | some parent => exact ih parent

theorem getLatestCar_eq : Storage.getLatestCar self laneId crypto staking previousCar=
    (self.getLatestCar crypto laneId staking previousCar).map .ok := by
  unfold Storage.getLatestCar getLatestCar
  simp only [Storage.getLaneHashTip,Storage.entries]
  cases self.getLaneHashTip laneId with
  | none => rfl
  | some tip =>
    dsimp only
    rw [latestCarFrom_eq,Option.map_map]
    congr 1
    funext r
    cases r with
    | ok car => rfl
    | error e => rfl

end Defaults

end LanesStorage

end TruthSeeker
