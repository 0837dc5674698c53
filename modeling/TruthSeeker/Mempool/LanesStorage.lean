import TruthSeeker.Framework.BinarySearch
import TruthSeeker.Framework.ParentWalk
import TruthSeeker.Model.Block
import TruthSeeker.Staking.State

namespace TruthSeeker

open Outcome ParentWalk BinarySearch

/-- `borsh::to_vec(..).unwrap_or_default().len()` -/
def serializedSize {T : Type} [Borsh T] (value : T) : UInt64 :=
  UInt64.ofNat ((Borsh.ser value).getD []).length

/-- A verified proof states its size itself. -/
def Transaction.estimateSize (self : Transaction) : UInt64 :=
  match self.transactionData with
  | .blob tx => serializedSize (tx.identity,tx.blobs)
  | .proof tx => serializedSize (tx.contractName,tx.proof)
  | .verifiedProof tx => tx.proofSize

def DataProposal.estimateSize (self : DataProposal) : UInt64 :=
  (self.txs.map Transaction.estimateSize).sum

/-- Proof that the validator committed to making this data proposal available, at this size of
its lane. -/
abbrev ValidatorDAG := SignedByValidator (DataProposalHash × LaneBytesSize)

/-- The order of the signatures, and of their validators if they are equal. -/
def ValidatorDAG.cmp : ValidatorDAG → ValidatorDAG → Ordering :=
  compareLex (compareOn fun vdag => vdag.signature.signature)
    (compareOn fun vdag => vdag.signature.validator)

instance : Std.TransCmp ValidatorDAG.cmp :=
  inferInstanceAs (Std.TransCmp (compareLex _ _))

structure LaneEntryMetadata where
  parentDataProposalHash : Option DataProposalHash
  cumulSize : LaneBytesSize
  signatures : List ValidatorDAG
  deriving DecidableEq

inductive CanBePutOnTop where
  | yes
  | no
  | fork
  deriving DecidableEq

structure LanesStorage where
  lanesTip : Std.ExtTreeMap LaneId (DataProposalHash × LaneBytesSize)
  byHashMetadata : Std.ExtTreeMap String LaneEntryMetadata
  byHashData : Std.ExtTreeMap String DataProposal

namespace LanesStorage

def empty : LanesStorage := ⟨∅,∅,∅⟩

/-- The key of an entry holds the lane as it is displayed: the first bytes of its operator. -/
def key (laneId : LaneId) (dpHash : DataProposalHash) : String :=
  ValidatorPublicKey.display laneId++":"++dpHash

section Code
variable (sha3 : Bytes → H256) (self : LanesStorage)

def contains (laneId : LaneId) (dpHash : DataProposalHash) : Bool :=
  self.byHashMetadata.contains (key laneId dpHash)

def getMetadataByHash (laneId : LaneId) (dpHash : DataProposalHash) : Option LaneEntryMetadata :=
  self.byHashMetadata[key laneId dpHash]?

def getDpByHash (laneId : LaneId) (dpHash : DataProposalHash) : Option DataProposal :=
  self.byHashData[key laneId dpHash]?

def getLaneHashTip (laneId : LaneId) : Option DataProposalHash :=
  self.lanesTip[laneId]?.map Prod.fst

def getLaneSizeTip (laneId : LaneId) : Option LaneBytesSize :=
  self.lanesTip[laneId]?.map Prod.snd

def updateLaneTip (laneId : LaneId) (dpHash : DataProposalHash) (size : LaneBytesSize) :
    LanesStorage :=
  { self with lanesTip := self.lanesTip.insert laneId (dpHash,size) }

/-- A missing entry has no size. -/
def getLaneSizeAt (laneId : LaneId) (dpHash : DataProposalHash) : LaneBytesSize :=
  match self.getMetadataByHash laneId dpHash with
  | none => 0
  | some entry => entry.cumulSize

/-- The entry leaves the storage, but its hash stays the tip of the lane. -/
def pop (laneId : LaneId) :
    Outcome (Option (DataProposalHash × LaneEntryMetadata × DataProposal)) × LanesStorage :=
  match self.getLaneHashTip laneId with
  | none => (.ok none,self)
  | some tip =>
      match self.getMetadataByHash laneId tip with
      | none => (.ok none,self)
      | some entry =>
          let metadata := self.byHashMetadata.erase (key laneId tip)
          match self.getDpByHash laneId tip with
          | none =>
              (err (s!"Can't find DP data {tip} for lane {ValidatorPublicKey.display laneId} "++
                "where metadata could be found"),{ self with byHashMetadata := metadata })
          | some dp =>
              let popped : LanesStorage :=
                { self with
                  byHashMetadata := metadata
                  byHashData := self.byHashData.erase (key laneId tip) }
              (.ok (some (tip,entry,dp)),popped.updateLaneTip laneId tip entry.cumulSize)

/-- Whether the parent is the tip of the lane, is not known, or makes a fork. -/
def canBePutOnTop (laneId : LaneId) (parentDataProposalHash : Option DataProposalHash) :
    CanBePutOnTop :=
  if parentDataProposalHash=self.getLaneHashTip laneId then .yes
  else
    match parentDataProposalHash with
    | none => .fork
    | some parent => if self.contains laneId parent then .fork else .no

def putNoVerification (laneId : LaneId) (entry : LaneEntryMetadata × DataProposal) :
    LanesStorage :=
  let dpHash := entry.2.hashed sha3
  { self with
    byHashMetadata := self.byHashMetadata.insert (key laneId dpHash) entry.1
    byHashData := self.byHashData.insert (key laneId dpHash) entry.2 }

def debugHash (hash : DataProposalHash) : String := s!"DataProposalHash({hash.quote})"

/-- The text of a tip, and of a parent, when it is printed for debugging. -/
def debugTip : Option (DataProposalHash × LaneBytesSize) → String
  | none => "None"
  | some (hash,size) => s!"Some(({debugHash hash}, LaneBytesSize({size})))"

def debugParent : Option DataProposalHash → String
  | none => "None"
  | some hash => s!"Some({debugHash hash})"

/-- The tip of the lane is only updated if the chain is respected. -/
def put (laneId : LaneId) (entry : LaneEntryMetadata × DataProposal) :
    Outcome Unit × LanesStorage :=
  let dpHash := entry.2.hashed sha3
  if self.contains laneId dpHash then
    (err s!"DataProposal {dpHash} was already in lane",self)
  else
    match self.canBePutOnTop laneId entry.1.parentDataProposalHash with
    | .no => (err s!"Can't store DataProposal {dpHash}, as parent is unknown ",self)
    | .fork =>
        (err ("DataProposal cannot be put in lane because it creates a fork: last dp hash "++
          s!"{debugTip self.lanesTip[laneId]?} while proposed parent_data_proposal_hash: "++
          debugParent entry.1.parentDataProposalHash),self)
    | .yes =>
        (.ok (),
          (self.putNoVerification sha3 laneId entry).updateLaneTip laneId dpHash
            entry.1.cumulSize)

/-- A vote on another hash or size is left out, and so is one that is already in. -/
def addSignature (dpHash : DataProposalHash) (lem : LaneEntryMetadata) (msg : ValidatorDAG) :
    LaneEntryMetadata :=
  if lem.cumulSize≠msg.msg.2 ∨ dpHash≠msg.msg.1 then lem
  else { lem with signatures := insertBy ValidatorDAG.cmp lem.signatures msg }

def addSignatures (laneId : LaneId) (dpHash : DataProposalHash) (voteMsgs : List ValidatorDAG) :
    Outcome (List ValidatorDAG) × LanesStorage :=
  match self.getMetadataByHash laneId dpHash with
  | none =>
      (err (s!"Can't find lane entry metadata {dpHash} for lane "++
        ValidatorPublicKey.display laneId),self)
  | some lem =>
      let lem := voteMsgs.foldl (addSignature dpHash) lem
      (.ok lem.signatures,
        { self with byHashMetadata := self.byHashMetadata.insert (key laneId dpHash) lem })

variable {PublicKey BlstSignature : Type} (crypto : BlstCrypto PublicKey BlstSignature)

/-- Signs the data proposal before creating a new entry and putting it in the lane. -/
def storeDataProposal (laneId : LaneId) (dataProposal : DataProposal) :
    Outcome (DataProposalHash × LaneBytesSize) × LanesStorage :=
  let dataProposalHash := dataProposal.hashed sha3
  let cumulSize := (self.getLaneSizeTip laneId).getD 0+dataProposal.estimateSize
  match crypto.sign (dataProposalHash,cumulSize) with
  | .error e => (.error e,self)
  | .ok signature =>
      let metadata : LaneEntryMetadata :=
        ⟨dataProposal.parentDataProposalHash,cumulSize,[signature]⟩
      match self.put sha3 laneId (metadata,dataProposal) with
      | (.ok (),next) => (.ok (dataProposalHash,cumulSize),next)
      | (.error e,next) => (.error e,next)

/-- Takes entries out from the tip until it finds the one of the previous cut, which it puts
back. Each round takes out an entry, so there are no more rounds than entries. -/
def popUntil (laneId : LaneId) (previousCommittedDpHash : Option DataProposalHash) :
    Nat → LanesStorage → Outcome Unit × LanesStorage
  | 0,self => (.ok (),self)
  | fuel+1,self =>
      match self.pop laneId with
      | (.error e,next) => (.error e,next)
      | (.ok none,next) => (.ok (),next)
      | (.ok (some (dpHash,le)),next) =>
          if some dpHash=previousCommittedDpHash then
            (.ok (),next.putNoVerification sha3 laneId le)
          else popUntil laneId previousCommittedDpHash fuel next

/-- The tip becomes the data proposal of the new cut, which may leave a gap in the lane. -/
def cleanAndUpdateLane (laneId : LaneId) (previousCommittedDpHash : Option DataProposalHash)
    (newCommittedDpHash : DataProposalHash) (newCommittedSize : LaneBytesSize) :
    Outcome Unit × LanesStorage :=
  let tipLane := self.getLaneHashTip laneId
  let cleaned :=
    if tipLane≠previousCommittedDpHash ∧ tipLane≠some newCommittedDpHash then
      popUntil sha3 laneId previousCommittedDpHash (self.byHashMetadata.size+1) self
    else (.ok (),self)
  match cleaned with
  | (.error e,next) => (.error e,next)
  | (.ok (),next) => (.ok (),next.updateLaneTip laneId newCommittedDpHash newCommittedSize)

/-- The entries from `to` down to `from`, which is left out. It is `none` for a walk that never
ends. -/
def getEntriesMetadataBetweenHashes (laneId : LaneId)
    (fromDataProposalHash toDataProposalHash : Option DataProposalHash) :
    Option (Walk DataProposalHash LaneEntryMetadata) :=
  match toDataProposalHash.or (self.getLaneHashTip laneId) with
  | none => some ⟨[],none⟩
  | some hash =>
      walk (self.getMetadataByHash laneId) LaneEntryMetadata.parentDataProposalHash
        (fun h => some h=fromDataProposalHash) (self.byHashMetadata.size+1) hash

/-- An entry with its data proposal. -/
def getEntryByHash (laneId : LaneId) (dpHash : DataProposalHash) :
    Option (LaneEntryMetadata × DataProposal) := do
  let metadata ← self.getMetadataByHash laneId dpHash
  let dp ← self.getDpByHash laneId dpHash
  return (metadata,dp)

/-- The same entries with their data proposals, up to the first that lacks one. -/
def getEntriesBetweenHashes (laneId : LaneId)
    (fromDataProposalHash toDataProposalHash : Option DataProposalHash) :
    Option (Walk DataProposalHash (LaneEntryMetadata × DataProposal)) :=
  match toDataProposalHash.or (self.getLaneHashTip laneId) with
  | none => some ⟨[],none⟩
  | some hash =>
      walk (self.getEntryByHash laneId) (fun entry => entry.1.parentDataProposalHash)
        (fun h => some h=fromDataProposalHash) (self.byHashMetadata.size+1) hash

end Code

theorem colon_not_mem_hexDigits (bs : Bytes) : ':' ∉ Bytes.hexDigits bs := by
  have digit : ∀ n<16,Bytes.hexDigit n≠ ':' := by decide
  induction bs with
  | nil => simp [Bytes.hexDigits]
  | cons b bs ih =>
    have hb : b.toNat<256 := b.toNat_lt
    have high := digit (b.toNat/16) (by omega)
    have low := digit (b.toNat%16) (by omega)
    simp only [Bytes.hexDigits,List.mem_cons,not_or]
    exact ⟨fun h => high h.symm,fun h => low h.symm,ih⟩

/-- The first separator ends the head. -/
theorem separator_inj {c : Char} {xs ys zs ws : List Char} (hx : c∉xs) (hy : c∉ys)
    (h : xs++c::zs=ys++c::ws) : xs=ys ∧ zs=ws := by
  induction xs generalizing ys with
  | nil =>
    cases ys with
    | nil => exact ⟨rfl,(List.cons.inj h).2⟩
    | cons y ys => exact absurd ((List.cons.inj h).1 ▸ List.mem_cons_self) hy
  | cons x xs ih =>
    cases ys with
    | nil => exact absurd ((List.cons.inj h).1 ▸ List.mem_cons_self) hx
    | cons y ys =>
      obtain ⟨rfl,ht⟩ := List.cons.inj h
      have tails := ih (fun hm => hx (List.mem_cons_of_mem _ hm))
        (fun hm => hy (List.mem_cons_of_mem _ hm)) ht
      exact ⟨congrArg _ tails.1,tails.2⟩

/-- Lanes that are displayed alike share their entries. -/
theorem key_inj {laneId laneId' : LaneId} {h h' : DataProposalHash} :
    key laneId h=key laneId' h' ↔
      ValidatorPublicKey.display laneId=ValidatorPublicKey.display laneId' ∧ h=h' := by
  constructor
  · intro hk
    have chars := congrArg String.toList hk
    simp only [key,ValidatorPublicKey.display,Bytes.hex,String.toList_append,String.toList_ofList,
      List.append_assoc] at chars
    obtain ⟨lane,hash⟩ := separator_inj (colon_not_mem_hexDigits _) (colon_not_mem_hexDigits _)
      chars
    exact ⟨congrArg String.ofList lane,String.toList_inj.mp hash⟩
  · rintro ⟨hd,rfl⟩
    rw [key,key,hd]

section Lookup
variable {sha3 : Bytes → H256} {self : LanesStorage} {laneId laneId' : LaneId}
  {hash h : DataProposalHash} {size : LaneBytesSize}

@[simp] theorem getMetadataByHash_updateLaneTip :
    (self.updateLaneTip laneId' hash size).getMetadataByHash laneId h=
      self.getMetadataByHash laneId h := rfl

@[simp] theorem getDpByHash_updateLaneTip :
    (self.updateLaneTip laneId' hash size).getDpByHash laneId h=self.getDpByHash laneId h := rfl

theorem lanesTip_updateLaneTip : (self.updateLaneTip laneId' hash size).lanesTip[laneId]?=
    if laneId=laneId' then some (hash,size) else self.lanesTip[laneId]? := by
  unfold updateLaneTip
  rw [Std.ExtTreeMap.getElem?_insert]
  by_cases hl : laneId=laneId'
  · simp [hl]
  · have apart : compare laneId' laneId≠.eq := fun heq =>
      hl (Std.LawfulEqOrd.eq_of_compare heq).symm
    rw [if_neg hl,if_neg apart]

@[simp] theorem lanesTip_putNoVerification {entry : LaneEntryMetadata × DataProposal} :
    (self.putNoVerification sha3 laneId' entry).lanesTip=self.lanesTip := rfl

theorem contains_eq_true : self.contains laneId h=true ↔
    ∃ metadata,self.getMetadataByHash laneId h=some metadata := by
  unfold contains getMetadataByHash
  rw [← Std.ExtTreeMap.mem_iff_contains,Std.ExtTreeMap.mem_iff_isSome_getElem?,
    Option.isSome_iff_exists]

theorem contains_eq_false : self.contains laneId h=false ↔
    self.getMetadataByHash laneId h=none := by
  rw [← Bool.not_eq_true,contains_eq_true]
  simp [Option.eq_none_iff_forall_ne_some]

/-- Equal keys are equal entries. -/
theorem compare_key {k k' : String} : compare k' k=.eq ↔ k=k' :=
  Std.LawfulEqOrd.compare_eq_iff_eq.trans eq_comm

theorem getMetadataByHash_putNoVerification {entry : LaneEntryMetadata × DataProposal} :
    (self.putNoVerification sha3 laneId' entry).getMetadataByHash laneId h=
      if key laneId h=key laneId' (entry.2.hashed sha3) then some entry.1
      else self.getMetadataByHash laneId h := by
  unfold putNoVerification getMetadataByHash
  rw [Std.ExtTreeMap.getElem?_insert]
  simp only [compare_key]

theorem getDpByHash_putNoVerification {entry : LaneEntryMetadata × DataProposal} :
    (self.putNoVerification sha3 laneId' entry).getDpByHash laneId h=
      if key laneId h=key laneId' (entry.2.hashed sha3) then some entry.2
      else self.getDpByHash laneId h := by
  unfold putNoVerification getDpByHash
  rw [Std.ExtTreeMap.getElem?_insert]
  simp only [compare_key]

theorem key_injective (laneId : LaneId) : Function.Injective (key laneId) :=
  fun _ _ hk => (key_inj.mp hk).2

theorem getEntryByHash_eq_some {entry : LaneEntryMetadata × DataProposal} :
    self.getEntryByHash laneId h=some entry ↔
      self.getMetadataByHash laneId h=some entry.1 ∧ self.getDpByHash laneId h=some entry.2 := by
  unfold getEntryByHash
  obtain ⟨metadata,dp⟩ := entry
  cases self.getMetadataByHash laneId h <;> cases self.getDpByHash laneId h <;> simp

/-- There are at most as many steps as entries, unless the walk has no end. -/
theorem length_le_size {ν : Type} {lookup : DataProposalHash → Option ν}
    {parent : ν → Option DataProposalHash} {stop : DataProposalHash → Prop}
    {w : Walk DataProposalHash ν} (hw : Walks lookup parent stop h w)
    (hl : ∀ k v,lookup k=some v → ∃ metadata,self.getMetadataByHash laneId k=some metadata) :
    w.entries.length<self.byHashMetadata.size+1 := by
  have stored : ∀ k v,lookup k=some v → key laneId k∈self.byHashMetadata.keys := by
    intro k v hk
    obtain ⟨metadata,hm⟩ := hl k v hk
    exact Std.ExtTreeMap.mem_keys.mpr (contains_eq_true.mpr ⟨metadata,hm⟩)
  have short := hw.length_le (key_injective laneId) stored
  rw [Std.ExtTreeMap.length_keys] at short
  omega

theorem getEntriesMetadataBetweenHashes_eq_some {fromHash : Option DataProposalHash}
    {w : Walk DataProposalHash LaneEntryMetadata} :
    self.getEntriesMetadataBetweenHashes laneId fromHash (some hash)=some w ↔
      Walks (self.getMetadataByHash laneId) LaneEntryMetadata.parentDataProposalHash
        (fun h => some h=fromHash) hash w :=
  ⟨walks_of_walk,fun hw => hw.walk_eq (length_le_size hw fun _ v hk => ⟨v,hk⟩)⟩

theorem getEntriesBetweenHashes_eq_some {fromHash : Option DataProposalHash}
    {w : Walk DataProposalHash (LaneEntryMetadata × DataProposal)} :
    self.getEntriesBetweenHashes laneId fromHash (some hash)=some w ↔
      Walks (self.getEntryByHash laneId) (fun entry => entry.1.parentDataProposalHash)
        (fun h => some h=fromHash) hash w :=
  ⟨walks_of_walk,fun hw => hw.walk_eq
    (length_le_size hw fun _ v hk => ⟨v.1,(getEntryByHash_eq_some.mp hk).1⟩)⟩

end Lookup

end LanesStorage

end TruthSeeker
