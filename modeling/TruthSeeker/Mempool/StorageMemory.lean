import TruthSeeker.Mempool.Storage

namespace TruthSeeker.StorageMemory

open Outcome

/-- The lanes in memory: each lane has its own map. -/
structure LanesStorage where
  lanesTip : Std.ExtTreeMap LaneId (DataProposalHash × LaneBytesSize)
  byHash : Std.ExtTreeMap LaneId
    (Std.ExtTreeMap DataProposalHash (LaneEntryMetadata × DataProposal))

namespace LanesStorage

def empty : LanesStorage := ⟨∅,∅⟩

section Code
variable (sha3 : Bytes → H256) (self : LanesStorage)

def contains (laneId : LaneId) (dpHash : DataProposalHash) : Bool :=
  match self.byHash[laneId]? with
  | some lane => lane.contains dpHash
  | none => false

/-- It is an error if nothing was ever put in the lane. -/
def getMetadataByHash (laneId : LaneId) (dpHash : DataProposalHash) :
    Outcome (Option LaneEntryMetadata) :=
  match self.byHash[laneId]? with
  | some lane => .ok (lane[dpHash]?.map Prod.fst)
  | none => err s!"Can't find lane with ID {ValidatorPublicKey.display laneId}"

def getDpByHash (laneId : LaneId) (dpHash : DataProposalHash) : Outcome (Option DataProposal) :=
  match self.byHash[laneId]? with
  | some lane => .ok (lane[dpHash]?.map Prod.snd)
  | none => err s!"Can't find validator {ValidatorPublicKey.display laneId}"

def getLaneHashTip (laneId : LaneId) : Option DataProposalHash :=
  self.lanesTip[laneId]?.map Prod.fst

def getLaneSizeTip (laneId : LaneId) : Option LaneBytesSize :=
  self.lanesTip[laneId]?.map Prod.snd

def updateLaneTip (laneId : LaneId) (dpHash : DataProposalHash) (size : LaneBytesSize) :
    LanesStorage :=
  { self with lanesTip := self.lanesTip.insert laneId (dpHash,size) }

/-- The entry leaves its lane, but its hash stays the tip of the lane. -/
def pop (validator : LaneId) :
    Outcome (Option (DataProposalHash × LaneEntryMetadata × DataProposal)) × LanesStorage :=
  match self.getLaneHashTip validator with
  | none => (.ok none,self)
  | some laneTip =>
      match self.byHash[validator]? with
      | none => (.ok none,self)
      | some lane =>
          match lane[laneTip]? with
          | none => (.ok none,self)
          | some entry =>
              let popped : LanesStorage :=
                { self with byHash := self.byHash.insert validator (lane.erase laneTip) }
              (.ok (some (laneTip,entry)),
                popped.updateLaneTip validator laneTip entry.1.cumulSize)

def putNoVerification (laneId : LaneId) (entry : LaneEntryMetadata × DataProposal) :
    LanesStorage :=
  { self with
    byHash := self.byHash.insert laneId
      ((self.byHash[laneId]?.getD ∅).insert (entry.2.hashed sha3) entry) }

/-- The tip of the lane is only updated if the chain is respected. -/
def put (laneId : LaneId) (entry : LaneEntryMetadata × DataProposal) :
    Outcome Unit × LanesStorage :=
  let dpHash := entry.2.hashed sha3
  if self.contains laneId dpHash then
    (err s!"DataProposal {dpHash} was already in lane",self)
  else
    match CanBePutOnTop.of (self.getLaneHashTip laneId) (self.contains laneId)
        entry.1.parentDataProposalHash with
    | .no => (err s!"Can't store DataProposal {dpHash}, as parent is unknown ",self)
    | .fork =>
        (err ("DataProposal cannot be put in lane because it creates a fork: last dp hash "++
          s!"{TruthSeeker.LanesStorage.debugTip self.lanesTip[laneId]?} "++
          "while proposed parent_data_proposal_hash: "++
          TruthSeeker.LanesStorage.debugParent entry.1.parentDataProposalHash),self)
    | .yes =>
        (.ok (),
          (self.putNoVerification sha3 laneId entry).updateLaneTip laneId dpHash
            entry.1.cumulSize)

def addSignatures (laneId : LaneId) (dpHash : DataProposalHash) (voteMsgs : List ValidatorDAG) :
    Outcome (List ValidatorDAG) × LanesStorage :=
  match self.byHash[laneId]? with
  | none => (err s!"Can't find validator {ValidatorPublicKey.display laneId}",self)
  | some lane =>
      match lane[dpHash]? with
      | none =>
          (err (s!"Can't find DP {dpHash} for validator "++
            ValidatorPublicKey.display laneId),self)
      | some (metadata,dataProposal) =>
          let metadata :=
            voteMsgs.foldl (TruthSeeker.LanesStorage.addSignature dpHash) metadata
          let lane := lane.insert dpHash (metadata,dataProposal)
          (.ok metadata.signatures,{ self with byHash := self.byHash.insert laneId lane })

end Code

instance : Storage LanesStorage where
  contains := contains
  getMetadataByHash := getMetadataByHash
  getDpByHash := getDpByHash
  pop := pop
  put := put
  putNoVerification := putNoVerification
  addSignatures := addSignatures
  getLaneIds self := self.lanesTip.keys
  getLaneHashTip := getLaneHashTip
  getLaneSizeTip := getLaneSizeTip
  updateLaneTip self laneId dpHash size :=
    (self.lanesTip[laneId]?,self.updateLaneTip laneId dpHash size)
  entries self laneId := (self.byHash[laneId]?.getD ∅).size

section Lookup
variable {sha3 : Bytes → H256} {self : LanesStorage} {laneId laneId' : LaneId}
  {hash h : DataProposalHash} {size : LaneBytesSize}

/-- The entries of a lane: none if nothing was ever put in it. -/
def lane (self : LanesStorage) (laneId : LaneId) :
    Std.ExtTreeMap DataProposalHash (LaneEntryMetadata × DataProposal) :=
  self.byHash[laneId]?.getD ∅

/-- Equal lanes are the same key. -/
theorem compare_lane : compare laneId' laneId=.eq ↔ laneId=laneId' :=
  Std.LawfulEqOrd.compare_eq_iff_eq.trans eq_comm

@[simp] theorem lane_updateLaneTip :
    (self.updateLaneTip laneId' hash size).lane laneId=self.lane laneId := rfl

theorem lane_insert
    {entries : Std.ExtTreeMap DataProposalHash (LaneEntryMetadata × DataProposal)} :
    LanesStorage.lane { self with byHash := self.byHash.insert laneId' entries } laneId=
      if laneId=laneId' then entries else self.lane laneId := by
  unfold lane
  rw [Std.ExtTreeMap.getElem?_insert]
  simp only [compare_lane]
  by_cases hl : laneId=laneId'
  · simp [hl]
  · simp [hl]

theorem contains_eq : self.contains laneId h=(self.lane laneId).contains h := by
  unfold contains lane
  cases self.byHash[laneId]? with
  | none => simp
  | some lane => rfl

theorem getMetadataByHash_of_known (known : self.byHash[laneId]?.isSome) :
    self.getMetadataByHash laneId h=.ok ((self.lane laneId)[h]?.map Prod.fst) := by
  obtain ⟨lane,hl⟩ := Option.isSome_iff_exists.mp known
  simp [getMetadataByHash,LanesStorage.lane,hl]

theorem getDpByHash_of_known (known : self.byHash[laneId]?.isSome) :
    self.getDpByHash laneId h=.ok ((self.lane laneId)[h]?.map Prod.snd) := by
  obtain ⟨lane,hl⟩ := Option.isSome_iff_exists.mp known
  simp [getDpByHash,LanesStorage.lane,hl]

/-- The entry of the tip is gone, and the tip stays. -/
def popped (self : LanesStorage) (laneId : LaneId) (tip : DataProposalHash)
    (size : LaneBytesSize) : LanesStorage :=
  let popped : LanesStorage :=
    { self with byHash := self.byHash.insert laneId ((self.lane laneId).erase tip) }
  popped.updateLaneTip laneId tip size

theorem getElem?_popped {tip : DataProposalHash} :
    ((self.popped laneId' tip size).lane laneId)[h]?=
      if laneId=laneId' ∧ h=tip then none else (self.lane laneId)[h]? := by
  unfold popped
  rw [lane_updateLaneTip,lane_insert]
  by_cases hl : laneId=laneId'
  · subst hl
    rw [if_pos rfl,Std.ExtTreeMap.getElem?_erase]
    simp only [TruthSeeker.LanesStorage.compare_key,true_and]
  · simp [hl]

theorem getElem?_putNoVerification {entry : LaneEntryMetadata × DataProposal} :
    ((self.putNoVerification sha3 laneId' entry).lane laneId)[h]?=
      if laneId=laneId' ∧ h=entry.2.hashed sha3 then some entry else (self.lane laneId)[h]? := by
  unfold putNoVerification
  rw [lane_insert]
  by_cases hl : laneId=laneId'
  · subst hl
    rw [if_pos rfl,Std.ExtTreeMap.getElem?_insert]
    simp only [TruthSeeker.LanesStorage.compare_key,true_and]
    rfl
  · simp [hl]

theorem pop_of_getElem? {tip : DataProposalHash} {entry : LaneEntryMetadata × DataProposal}
    (ht : self.getLaneHashTip laneId=some tip) (he : (self.lane laneId)[tip]?=some entry) :
    self.pop laneId=(.ok (some (tip,entry)),self.popped laneId tip entry.1.cumulSize) := by
  unfold pop popped
  unfold lane at he ⊢
  rw [ht]
  dsimp only
  cases hl : self.byHash[laneId]? with
  | none => simp [hl] at he
  | some lane =>
    rw [hl] at he
    simp only [Option.getD_some] at he ⊢
    rw [he]

theorem pop_of_not_getElem? {tip : DataProposalHash}
    (ht : self.getLaneHashTip laneId=some tip) (he : (self.lane laneId)[tip]?=none) :
    self.pop laneId=(.ok none,self) := by
  unfold pop
  unfold lane at he
  rw [ht]
  dsimp only
  cases hl : self.byHash[laneId]? with
  | none => rfl
  | some lane =>
    rw [hl] at he
    simp only [Option.getD_some] at he
    simp only [he]

/-- The entry of a hash with other metadata. -/
def signed (self : LanesStorage) (laneId : LaneId) (hash : DataProposalHash)
    (entry : LaneEntryMetadata × DataProposal) : LanesStorage :=
  { self with byHash := self.byHash.insert laneId ((self.lane laneId).insert hash entry) }

theorem getElem?_signed {entry : LaneEntryMetadata × DataProposal} :
    ((self.signed laneId' hash entry).lane laneId)[h]?=
      if laneId=laneId' ∧ h=hash then some entry else (self.lane laneId)[h]? := by
  unfold signed
  rw [lane_insert]
  by_cases hl : laneId=laneId'
  · subst hl
    rw [if_pos rfl,Std.ExtTreeMap.getElem?_insert]
    simp only [TruthSeeker.LanesStorage.compare_key,true_and]
  · simp [hl]

theorem addSignatures_of_getElem? {votes : List ValidatorDAG}
    {entry : LaneEntryMetadata × DataProposal} (he : (self.lane laneId)[hash]?=some entry) :
    self.addSignatures laneId hash votes=
      (.ok (votes.foldl (TruthSeeker.LanesStorage.addSignature hash) entry.1).signatures,
        self.signed laneId hash
          (votes.foldl (TruthSeeker.LanesStorage.addSignature hash) entry.1,entry.2)) := by
  unfold addSignatures signed
  unfold lane at he ⊢
  cases hl : self.byHash[laneId]? with
  | none => simp [hl] at he
  | some lane =>
    rw [hl] at he
    simp only [Option.getD_some] at he ⊢
    rw [he]

theorem addSignatures_of_not_getElem? (he : (self.lane laneId)[hash]?=none)
    (votes : List ValidatorDAG) :
    ∃ e,self.addSignatures laneId hash votes=(.error e,self) := by
  unfold addSignatures
  unfold lane at he
  cases hl : self.byHash[laneId]? with
  | none => exact ⟨_,rfl⟩
  | some lane =>
    rw [hl] at he
    simp only [Option.getD_some] at he
    simp only [he]
    exact ⟨_,rfl⟩

end Lookup

end LanesStorage

end TruthSeeker.StorageMemory
