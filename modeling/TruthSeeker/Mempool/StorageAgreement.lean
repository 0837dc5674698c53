import TruthSeeker.Mempool.LaneCleaning

namespace TruthSeeker

open Outcome ParentWalk Storage

section
variable {PublicKey BlstSignature : Type}

namespace Storage

/-- The lane that a call names. -/
def Op.lane : Op → Option LaneId
  | .put laneId _ => some laneId
  | .putNoVerification laneId _ => some laneId
  | .pop laneId => some laneId
  | .addSignatures laneId _ _ => some laneId
  | .updateLaneTip laneId _ _ => some laneId
  | .cleanAndUpdateLane laneId _ _ _ => some laneId
  | .contains laneId _ => some laneId
  | .getMetadataByHash laneId _ => some laneId
  | .getDpByHash laneId _ => some laneId
  | .getLaneSizeAt laneId _ => some laneId
  | .getLaneIds => none
  | .getLaneHashTip laneId => some laneId
  | .getLaneSizeTip laneId => some laneId
  | .getEntriesMetadataBetweenHashes laneId _ _ => some laneId
  | .getEntriesBetweenHashes laneId _ _ => some laneId
  | .getPendingEntriesInLane laneId _ => some laneId
  | .getLatestCar laneId _ _ => some laneId

/-- The lane of a stream that has a first entry to look for. -/
def streamed (laneId : LaneId) (fromHash toHash : Option DataProposalHash) : Option LaneId :=
  if toHash=none ∨ toHash=fromHash then none else some laneId

/-- The lane in which a call looks up an entry or its data proposal. -/
def Op.looksUp (tip : LaneId → Option DataProposalHash) : Op → Option LaneId
  | .getMetadataByHash laneId _ => some laneId
  | .getDpByHash laneId _ => some laneId
  | .getLaneSizeAt laneId _ => some laneId
  | .getEntriesMetadataBetweenHashes laneId fromHash toHash =>
      streamed laneId fromHash (toHash.or (tip laneId))
  | .getEntriesBetweenHashes laneId fromHash toHash =>
      streamed laneId fromHash (toHash.or (tip laneId))
  | .getPendingEntriesInLane laneId lastCut =>
      streamed laneId
        (lastCut.bind fun cut => (cut.find? (fun car => car.1=laneId)).map fun car => car.2.1)
        (tip laneId)
  | .getLatestCar laneId _ _ => (tip laneId).map fun _ => laneId
  | _ => none

/-- A value, an error of whatever text, or a loop that never ends. -/
def Returned.kind (returned : Returned) : Option (Option Answer) := returned.map Except.toOption

/-- The two storages return the same, call by call, and keep the same tips. -/
def Agree (sha3 : Bytes → H256) (crypto : BlstCrypto PublicKey BlstSignature) :
    LanesStorage → StorageMemory.LanesStorage → List Op → Prop
  | fjall,memory,[] => fjall.lanesTip=memory.lanesTip
  | fjall,memory,op::ops =>
      fjall.lanesTip=memory.lanesTip ∧
      Returned.kind (call sha3 crypto fjall op).1=Returned.kind (call sha3 crypto memory op).1 ∧
      Agree sha3 crypto (call sha3 crypto fjall op).2 (call sha3 crypto memory op).2 ops

/-- Entries are only looked up in lanes in which one has been put. -/
def KnownLanes (sha3 : Bytes → H256) (crypto : BlstCrypto PublicKey BlstSignature) :
    StorageMemory.LanesStorage → List Op → Prop
  | _,[] => True
  | memory,op::ops =>
      (∀ laneId∈op.looksUp memory.getLaneHashTip,memory.byHash[laneId]?.isSome) ∧
      KnownLanes sha3 crypto (call sha3 crypto memory op).2 ops

end Storage

/-- The storages hold the same tips, and the same entries in these lanes. -/
structure Alike (lanes : Set LaneId) (fjall : LanesStorage)
    (memory : StorageMemory.LanesStorage) : Prop where
  tips : fjall.lanesTip=memory.lanesTip
  metadata : ∀ laneId∈lanes,∀ h,
    fjall.getMetadataByHash laneId h=(memory.lane laneId)[h]?.map Prod.fst
  dp : ∀ laneId∈lanes,∀ h,fjall.getDpByHash laneId h=(memory.lane laneId)[h]?.map Prod.snd

section Steps
variable {lanes : Set LaneId} {fjall : LanesStorage} {memory : StorageMemory.LanesStorage}
  {laneId laneId' : LaneId} {sha3 : Bytes → H256} {h h' : DataProposalHash}

theorem key_eq_key_iff (inj : lanes.InjOn ValidatorPublicKey.display) (hl : laneId∈lanes)
    (hl' : laneId'∈lanes) :
    LanesStorage.key laneId h=LanesStorage.key laneId' h' ↔ laneId=laneId' ∧ h=h' := by
  rw [LanesStorage.key_inj,inj.eq_iff hl hl']

theorem alike_empty (lanes : Set LaneId)
    (tips : Std.ExtTreeMap LaneId (DataProposalHash × LaneBytesSize)) :
    Alike lanes ⟨tips,∅,∅⟩ ⟨tips,∅⟩ := by
  refine ⟨rfl,?_,?_⟩
  · intro laneId _ h
    simp [LanesStorage.getMetadataByHash,StorageMemory.LanesStorage.lane]
  · intro laneId _ h
    simp [LanesStorage.getDpByHash,StorageMemory.LanesStorage.lane]

namespace Alike

variable (alike : Alike lanes fjall memory)
include alike

theorem hashTip (laneId : LaneId) :
    fjall.getLaneHashTip laneId=memory.getLaneHashTip laneId := by
  unfold LanesStorage.getLaneHashTip StorageMemory.LanesStorage.getLaneHashTip
  rw [alike.tips]

theorem contains (hl : laneId∈lanes) (h : DataProposalHash) :
    fjall.contains laneId h=memory.contains laneId h := by
  rw [StorageMemory.LanesStorage.contains_eq,Bool.eq_iff_iff,LanesStorage.contains_eq_true,
    ← Std.ExtTreeMap.mem_iff_contains,Std.ExtTreeMap.mem_iff_isSome_getElem?]
  simp only [alike.metadata laneId hl,Option.isSome_iff_exists,Option.map_eq_some_iff]
  constructor
  · rintro ⟨_,entry,he,_⟩
    exact ⟨entry,he⟩
  · rintro ⟨entry,he⟩
    exact ⟨_,entry,he,rfl⟩

theorem updateLaneTip (laneId : LaneId) (hash : DataProposalHash) (size : LaneBytesSize) :
    Alike lanes (fjall.updateLaneTip laneId hash size)
      (memory.updateLaneTip laneId hash size) := by
  refine ⟨?_,alike.metadata,alike.dp⟩
  unfold LanesStorage.updateLaneTip StorageMemory.LanesStorage.updateLaneTip
  dsimp only
  rw [alike.tips]

theorem putNoVerification (inj : lanes.InjOn ValidatorPublicKey.display) (hl : laneId∈lanes)
    (entry : LaneEntryMetadata × DataProposal) :
    Alike lanes (fjall.putNoVerification sha3 laneId entry)
      (memory.putNoVerification sha3 laneId entry) := by
  refine ⟨alike.tips,?_,?_⟩
  · intro laneId' hl' h
    rw [LanesStorage.getMetadataByHash_putNoVerification,
      StorageMemory.LanesStorage.getElem?_putNoVerification]
    simp only [key_eq_key_iff inj hl' hl,alike.metadata laneId' hl']
    split_ifs <;> rfl
  · intro laneId' hl' h
    rw [LanesStorage.getDpByHash_putNoVerification,
      StorageMemory.LanesStorage.getElem?_putNoVerification]
    simp only [key_eq_key_iff inj hl' hl,alike.dp laneId' hl']
    split_ifs <;> rfl

theorem popped (inj : lanes.InjOn ValidatorPublicKey.display) (hl : laneId∈lanes)
    (tip : DataProposalHash) (entry : LaneEntryMetadata) :
    Alike lanes (fjall.popped laneId tip entry) (memory.popped laneId tip entry.cumulSize) := by
  refine ⟨?_,?_,?_⟩
  · unfold LanesStorage.popped StorageMemory.LanesStorage.popped
    simp only [StorageMemory.LanesStorage.updateLaneTip,alike.tips]
  · intro laneId' hl' h
    rw [LanesStorage.getMetadataByHash_popped,StorageMemory.LanesStorage.getElem?_popped]
    simp only [key_eq_key_iff inj hl' hl,alike.metadata laneId' hl']
    split_ifs <;> rfl
  · intro laneId' hl' h
    rw [LanesStorage.getDpByHash_popped,StorageMemory.LanesStorage.getElem?_popped]
    simp only [key_eq_key_iff inj hl' hl,alike.dp laneId' hl']
    split_ifs <;> rfl

/-- The two pops take out the same entry, after which there is none to take out, or none. -/
theorem pop_cases (hl : laneId∈lanes) :
    (fjall.pop laneId=(.ok none,fjall) ∧ memory.pop laneId=(.ok none,memory)) ∨
    ∃ tip metadata dp,fjall.getLaneHashTip laneId=some tip ∧
      fjall.pop laneId=(.ok (some (tip,metadata,dp)),fjall.popped laneId tip metadata) ∧
      memory.pop laneId=
        (.ok (some (tip,metadata,dp)),memory.popped laneId tip metadata.cumulSize) := by
  have htips := alike.hashTip laneId
  cases ht : memory.getLaneHashTip laneId with
  | none =>
    rw [ht] at htips
    exact Or.inl ⟨LawfulStorage.pop_of_no_tip fjall laneId htips,
      LawfulStorage.pop_of_no_tip memory laneId ht⟩
  | some tip =>
    rw [ht] at htips
    have hm := alike.metadata laneId hl tip
    have hd := alike.dp laneId hl tip
    cases he : (memory.lane laneId)[tip]? with
    | none =>
      rw [he] at hm
      exact Or.inl ⟨LawfulStorage.pop_of_missing fjall laneId tip htips hm,
        StorageMemory.LanesStorage.pop_of_not_getElem? ht he⟩
    | some entry =>
      rw [he] at hm hd
      refine Or.inr ⟨tip,entry.1,entry.2,htips,?_,
        StorageMemory.LanesStorage.pop_of_getElem? ht he⟩
      simp only [LanesStorage.pop,htips,hm,hd,Option.map_some]
      rfl

omit alike in
/-- After a pop there is nothing to take out. -/
theorem pop_popped (tip : DataProposalHash) (metadata : LaneEntryMetadata) :
    (fjall.popped laneId tip metadata).pop laneId=
        (.ok none,fjall.popped laneId tip metadata) ∧
      (memory.popped laneId tip metadata.cumulSize).pop laneId=
        (.ok none,memory.popped laneId tip metadata.cumulSize) := by
  constructor
  · refine LawfulStorage.pop_of_missing (fjall.popped laneId tip metadata) laneId tip ?_ ?_
    · simp only [Storage.getLaneHashTip,LanesStorage.getLaneHashTip,LanesStorage.lanesTip_popped,
        if_pos]
      rfl
    · simp only [LanesStorage.metadata?_eq,LanesStorage.getMetadataByHash_popped,if_pos]
  · have ht : (memory.popped laneId tip metadata.cumulSize).getLaneHashTip laneId=some tip := by
      simp [StorageMemory.LanesStorage.popped,StorageMemory.LanesStorage.getLaneHashTip,
        StorageMemory.LanesStorage.updateLaneTip]
    have he : ((memory.popped laneId tip metadata.cumulSize).lane laneId)[tip]?=none := by
      rw [StorageMemory.LanesStorage.getElem?_popped]
      simp
    exact StorageMemory.LanesStorage.pop_of_not_getElem? ht he

theorem popUntil (sha3 : Bytes → H256) (inj : lanes.InjOn ValidatorPublicKey.display)
    (hl : laneId∈lanes) (previous : Option DataProposalHash) (m n : Nat) :
    ∃ fjall' memory',
      Storage.popUntil sha3 laneId previous (m+1) fjall=(.ok (),fjall') ∧
      Storage.popUntil sha3 laneId previous (n+1) memory=(.ok (),memory') ∧
      Alike lanes fjall' memory' := by
  obtain ⟨hf,hm⟩|⟨tip,metadata,dp,_,hf,hm⟩ := alike.pop_cases hl
  · exact ⟨fjall,memory,popUntil_of_ended hf _,popUntil_of_ended hm _,alike⟩
  · have popped := alike.popped inj hl tip metadata
    obtain ⟨endedF,endedM⟩ := pop_popped tip metadata
    unfold Storage.popUntil
    simp only [Storage.pop,hf,hm]
    by_cases hp : some tip=previous
    · rw [if_pos hp,if_pos hp]
      exact ⟨_,_,rfl,rfl,popped.putNoVerification inj hl (metadata,dp)⟩
    · rw [if_neg hp,if_neg hp]
      exact ⟨_,_,popUntil_of_ended endedF m,popUntil_of_ended endedM n,popped⟩

theorem cleanAndUpdateLane (sha3 : Bytes → H256) (inj : lanes.InjOn ValidatorPublicKey.display)
    (hl : laneId∈lanes) (previous : Option DataProposalHash) (new : DataProposalHash) (size : LaneBytesSize) :
    ∃ fjall' memory',
      Storage.cleanAndUpdateLane sha3 fjall laneId previous new size=(.ok (),fjall') ∧
      Storage.cleanAndUpdateLane sha3 memory laneId previous new size=(.ok (),memory') ∧
      Alike lanes fjall' memory' := by
  unfold Storage.cleanAndUpdateLane
  simp only [Storage.getLaneHashTip,alike.hashTip]
  by_cases ht : memory.getLaneHashTip laneId≠previous ∧ memory.getLaneHashTip laneId≠some new
  · rw [if_pos ht,if_pos ht]
    obtain ⟨fjall',memory',hf,hm,alike'⟩ := alike.popUntil sha3 inj hl previous
      (entries fjall laneId) (entries memory laneId)
    rw [hf,hm]
    exact ⟨_,_,rfl,rfl,alike'.updateLaneTip laneId new size⟩
  · rw [if_neg ht,if_neg ht]
    exact ⟨_,_,rfl,rfl,alike.updateLaneTip laneId new size⟩

theorem put (sha3 : Bytes → H256) (inj : lanes.InjOn ValidatorPublicKey.display)
    (hl : laneId∈lanes) (entry : LaneEntryMetadata × DataProposal) :
    (fjall.put sha3 laneId entry).1.toOption=(memory.put sha3 laneId entry).1.toOption ∧
      Alike lanes (fjall.put sha3 laneId entry).2 (memory.put sha3 laneId entry).2 := by
  have hcontains : fjall.contains laneId=memory.contains laneId := by
    funext h
    exact alike.contains hl h
  unfold LanesStorage.put StorageMemory.LanesStorage.put
  simp only [LanesStorage.canBePutOnTop_eq,hcontains,alike.hashTip]
  by_cases hc : memory.contains laneId (entry.2.hashed sha3)=true
  · rw [if_pos hc,if_pos hc]
    exact ⟨rfl,alike⟩
  · rw [if_neg hc,if_neg hc]
    cases CanBePutOnTop.of (memory.getLaneHashTip laneId) (memory.contains laneId)
        entry.1.parentDataProposalHash with
    | yes => exact ⟨rfl,(alike.putNoVerification inj hl entry).updateLaneTip _ _ _⟩
    | no => exact ⟨rfl,alike⟩
    | fork => exact ⟨rfl,alike⟩

theorem addSignatures (inj : lanes.InjOn ValidatorPublicKey.display) (hl : laneId∈lanes)
    (hash : DataProposalHash) (votes : List ValidatorDAG) :
    (fjall.addSignatures laneId hash votes).1.toOption=
        (memory.addSignatures laneId hash votes).1.toOption ∧
      Alike lanes (fjall.addSignatures laneId hash votes).2
        (memory.addSignatures laneId hash votes).2 := by
  have hm := alike.metadata laneId hl hash
  cases he : (memory.lane laneId)[hash]? with
  | none =>
    rw [he] at hm
    obtain ⟨e,hs⟩ := StorageMemory.LanesStorage.addSignatures_of_not_getElem? he votes
    rw [hs]
    simp only [LanesStorage.addSignatures,hm,Option.map_none]
    exact ⟨rfl,alike⟩
  | some entry =>
    rw [he] at hm
    rw [StorageMemory.LanesStorage.addSignatures_of_getElem? he]
    simp only [LanesStorage.addSignatures,hm,Option.map_some]
    refine ⟨trivial,alike.tips,?_,?_⟩
    · intro laneId' hl' h
      rw [StorageMemory.LanesStorage.getElem?_signed]
      unfold LanesStorage.getMetadataByHash
      dsimp only
      rw [Std.ExtTreeMap.getElem?_insert]
      simp only [LanesStorage.compare_key,key_eq_key_iff inj hl' hl]
      split_ifs with hk
      · rfl
      · exact alike.metadata laneId' hl' h
    · intro laneId' hl' h
      rw [StorageMemory.LanesStorage.getElem?_signed]
      split_ifs with hk
      · obtain ⟨rfl,rfl⟩ := hk
        have hd := alike.dp laneId' hl' h
        rw [he] at hd
        exact hd
      · exact alike.dp laneId' hl' h

end Alike

end Steps

section Streams
variable {ν : Type} {found : DataProposalHash → Option ν}
  {getF getM : DataProposalHash → Outcome (Option ν)} {parent : ν → Option DataProposalHash}
  {stop : DataProposalHash → Prop} [DecidablePred stop] {make : Walk DataProposalHash ν → Answer}
  {m n : Nat} {hash : DataProposalHash}

/-- A stream whose lookups fail is told apart, unless it stops before the first one. -/
theorem kind_stream_iff {known : Prop} (hf : ∀ h,getF h=.ok (found h))
    (hk : known → getM=getF) (hu : ¬known → ∃ e,∀ h,getM h=.error e)
    (hm : ∀ w,Walks found parent stop hash w → w.entries.length < m+1)
    (hn : known → ∀ w,Walks found parent stop hash w → w.entries.length < n+1) :
    Returned.kind ((walkM getF parent stop (m+1) hash).map (Except.map make))=
      Returned.kind ((walkM getM parent stop (n+1) hash).map (Except.map make)) ↔
    (stop hash ∨ known) := by
  by_cases known : known
  · simp only [known,or_true,iff_true]
    rw [hk known,walkM_eq_walk hf,walkM_eq_walk hf,walk_eq_walk hm (hn known)]
  · obtain ⟨e,he⟩ := hu known
    rw [walkM_of_error he,walkM_eq_walk hf]
    by_cases hs : stop hash
    · simp only [hs,true_or,iff_true,if_true]
      rw [walk,if_pos hs]
      rfl
    · simp only [hs,known,or_self,iff_false,if_false]
      cases walk found parent stop (m+1) hash with
      | none => simp [Returned.kind]
      | some w => simp [Returned.kind,Except.map,Except.toOption]

end Streams

section LatestCar
variable (crypto : BlstCrypto PublicKey BlstSignature) (staking : Staking)
  (car : Option (LaneId × DataProposalHash × LaneBytesSize × PoDA))
  (found : DataProposalHash → Option LaneEntryMetadata)

/-- An entry at which the loop ends. -/
def Settles (hash : DataProposalHash) : Prop :=
  ∃ le,found hash=some le ∧
    ((car.filter (fun car => car.2.1=hash)).isSome ∨ le.HasVotes staking)

open Classical in
theorem isSome_latestCarFrom (fuel : Nat) (hash : DataProposalHash) :
    (latestCarFrom crypto staking car (fun h => .ok (found h)) fuel hash).isSome=
      (walk found LaneEntryMetadata.parentDataProposalHash (Settles staking car found) fuel
        hash).isSome := by
  induction fuel generalizing hash with
  | zero => rfl
  | succ fuel ih =>
    unfold latestCarFrom walk
    cases hf : found hash with
    | none =>
      have hs : ¬Settles staking car found hash := by
        rintro ⟨le,hl,_⟩
        rw [hf] at hl
        cases hl
      rw [if_neg hs]
      rfl
    | some le =>
      dsimp only
      cases hc : car.filter (fun car => car.2.1=hash) with
      | some c =>
        have hs : Settles staking car found hash := ⟨le,hf,Or.inl (by rw [hc]; rfl)⟩
        rw [if_pos hs]
        rfl
      | none =>
        by_cases hv : le.HasVotes staking
        · have hs : Settles staking car found hash := ⟨le,hf,Or.inr hv⟩
          rw [if_pos hs]
          simp only [if_pos hv]
          cases crypto.aggregate (hash,le.cumulSize) (le.filteredSignatures staking) with
          | ok poda => rfl
          | error e => rfl
        · have hs : ¬Settles staking car found hash := by
            rintro ⟨le',hl,hset⟩
            obtain rfl := Option.some.inj (hf.symm.trans hl)
            rw [hc] at hset
            simp [hv] at hset
          rw [if_neg hs]
          simp only [if_neg hv]
          cases hp : le.parentDataProposalHash with
          | none => rfl
          | some p => simp [ih p]

variable {found}

/-- More fuel does not change what the loop finds. -/
theorem latestCarFrom_mono {lookup : DataProposalHash → Outcome (Option LaneEntryMetadata)}
    {fuel : Nat} {hash : DataProposalHash}
    {r : Outcome (Option (DataProposalHash × LaneBytesSize × PoDA))}
    (h : latestCarFrom crypto staking car lookup fuel hash=some r) (more : Nat) :
    latestCarFrom crypto staking car lookup (fuel+more) hash=some r := by
  induction fuel generalizing hash with
  | zero => cases h
  | succ fuel ih =>
    rw [Nat.add_right_comm]
    unfold latestCarFrom at h ⊢
    cases hl : lookup hash with
    | error e => simpa only [hl] using h
    | ok le =>
      cases le with
      | none => simpa only [hl] using h
      | some le =>
        simp only [hl] at h ⊢
        cases hc : car.filter (fun car => car.2.1=hash) with
        | some c => simpa only [hc] using h
        | none =>
          simp only [hc] at h ⊢
          by_cases hv : le.HasVotes staking
          · simpa only [if_pos hv] using h
          · simp only [if_neg hv] at h ⊢
            cases hp : le.parentDataProposalHash with
            | none => simpa only [hp] using h
            | some p =>
              simp only [hp] at h ⊢
              exact ih h

/-- Fuels that suffice for every walk that ends find the same. -/
theorem latestCarFrom_eq {m n : Nat} {hash : DataProposalHash}
    (hm : ∀ w,Walks found LaneEntryMetadata.parentDataProposalHash (Settles staking car found)
      hash w → w.entries.length < m)
    (hn : ∀ w,Walks found LaneEntryMetadata.parentDataProposalHash (Settles staking car found)
      hash w → w.entries.length < n) :
    latestCarFrom crypto staking car (fun h => .ok (found h)) m hash=
      latestCarFrom crypto staking car (fun h => .ok (found h)) n hash := by
  classical
  have left := isSome_latestCarFrom crypto staking car found m hash
  have right := isSome_latestCarFrom crypto staking car found n hash
  rw [walk_eq_walk hm hn,← right] at left
  cases hl : latestCarFrom crypto staking car (fun h => .ok (found h)) m hash with
  | none =>
    rw [hl] at left
    exact (Option.isNone_iff_eq_none.mp (by simpa using left.symm)).symm
  | some r =>
    rw [hl] at left
    obtain ⟨r',hr⟩ := Option.isSome_iff_exists.mp left.symm
    have hmono := latestCarFrom_mono crypto staking car hl n
    have hmono' := latestCarFrom_mono crypto staking car hr m
    rw [Nat.add_comm] at hmono'
    rw [hr]
    exact hmono.symm.trans hmono'

end LatestCar

section Getters
variable {lanes : Set LaneId} {fjall : LanesStorage} {memory : StorageMemory.LanesStorage}
  {laneId : LaneId}

namespace Alike

variable (alike : Alike lanes fjall memory) (hl : laneId∈lanes)
include alike hl

theorem metadata_of_known (known : memory.byHash[laneId]?.isSome) :
    Storage.getMetadataByHash memory laneId=Storage.getMetadataByHash fjall laneId := by
  funext h
  simp only [Storage.getMetadataByHash,alike.metadata laneId hl]
  exact StorageMemory.LanesStorage.getMetadataByHash_of_known known

theorem dp_of_known (known : memory.byHash[laneId]?.isSome) :
    Storage.getDpByHash memory laneId=Storage.getDpByHash fjall laneId := by
  funext h
  simp only [Storage.getDpByHash,alike.dp laneId hl]
  exact StorageMemory.LanesStorage.getDpByHash_of_known known

theorem entry_of_known (known : memory.byHash[laneId]?.isSome) :
    Storage.getEntryByHash memory laneId=Storage.getEntryByHash fjall laneId := by
  funext h
  unfold Storage.getEntryByHash
  rw [alike.metadata_of_known hl known,alike.dp_of_known hl known]

/-- A walk in a lane that ends is no longer than there are entries in it. -/
theorem length_lt_entries {ν : Type} {found : DataProposalHash → Option ν}
    {parent : ν → Option DataProposalHash} {stop : DataProposalHash → Prop}
    {hash : DataProposalHash} {w : Walk DataProposalHash ν} (hw : Walks found parent stop hash w)
    (hf : ∀ k v,found k=some v → ∃ metadata,fjall.getMetadataByHash laneId k=some metadata) :
    w.entries.length < entries memory laneId+1 := by
  have stored : ∀ k v,found k=some v → id k∈(memory.lane laneId).keys := by
    intro k v hk
    obtain ⟨metadata,hm⟩ := hf k v hk
    rw [alike.metadata laneId hl] at hm
    obtain ⟨entry,he,_⟩ := Option.map_eq_some_iff.mp hm
    rw [Std.ExtTreeMap.mem_keys,Std.ExtTreeMap.mem_iff_isSome_getElem?,id,he]
    rfl
  have short := hw.length_le Function.injective_id stored
  rw [Std.ExtTreeMap.length_keys] at short
  exact Nat.lt_succ_of_le short

end Alike

theorem error_of_unknown (unknown : ¬memory.byHash[laneId]?.isSome) :
    (∃ e,∀ h,Storage.getMetadataByHash memory laneId h=.error e) ∧
      (∃ e,∀ h,Storage.getDpByHash memory laneId h=.error e) ∧
      ∃ e,∀ h,Storage.getEntryByHash memory laneId h=.error e := by
  have hn : memory.byHash[laneId]?=none := by simpa using unknown
  have hm : ∀ h,Storage.getMetadataByHash memory laneId h=
      err s!"Can't find lane with ID {ValidatorPublicKey.display laneId}" := by
    intro h
    simp only [Storage.getMetadataByHash,StorageMemory.LanesStorage.getMetadataByHash,hn]
  have hd : ∀ h,Storage.getDpByHash memory laneId h=
      err s!"Can't find validator {ValidatorPublicKey.display laneId}" := by
    intro h
    simp only [Storage.getDpByHash,StorageMemory.LanesStorage.getDpByHash,hn]
  have he : ∀ h,Storage.getEntryByHash memory laneId h=
      err s!"Can't find lane with ID {ValidatorPublicKey.display laneId}" := by
    intro h
    simp only [Storage.getEntryByHash,hm]
    rfl
  exact ⟨⟨_,hm⟩,⟨_,hd⟩,⟨_,he⟩⟩

/-- The lane of a stream is known, unless it stops at once. -/
theorem streamed_known_iff {fromHash : Option DataProposalHash} {hash : DataProposalHash} :
    (∀ l∈streamed laneId fromHash (some hash),memory.byHash[l]?.isSome) ↔
      (some hash=fromHash ∨ memory.byHash[laneId]?.isSome) := by
  unfold streamed
  by_cases hs : some hash=fromHash
  · simp [hs]
  · simp [hs]

namespace Alike

variable (alike : Alike lanes fjall memory) (hl : laneId∈lanes)
include alike hl

theorem metadataStream_iff (fromHash toHash : Option DataProposalHash) :
    Returned.kind ((Storage.getEntriesMetadataBetweenHashes fjall laneId fromHash toHash).map
        (Except.map .metadataStream))=
      Returned.kind ((Storage.getEntriesMetadataBetweenHashes memory laneId fromHash toHash).map
        (Except.map .metadataStream)) ↔
    ∀ l∈streamed laneId fromHash (toHash.or (memory.getLaneHashTip laneId)),
      memory.byHash[l]?.isSome := by
  unfold Storage.getEntriesMetadataBetweenHashes
  simp only [Storage.getLaneHashTip,alike.hashTip]
  cases toHash.or (memory.getLaneHashTip laneId) with
  | none => simp [streamed]
  | some hash =>
    rw [streamed_known_iff]
    refine kind_stream_iff (fun _ => rfl) (alike.metadata_of_known hl)
      (fun unknown => (error_of_unknown unknown).1) ?_ ?_
    · intro w hw
      exact LanesStorage.length_le_size hw fun _ v hk => ⟨v,hk⟩
    · intro _ w hw
      exact alike.length_lt_entries hl hw fun _ v hk => ⟨v,hk⟩

theorem entryStream_iff (fromHash toHash : Option DataProposalHash) :
    Returned.kind ((Storage.getEntriesBetweenHashes fjall laneId fromHash toHash).map
        (Except.map .entryStream))=
      Returned.kind ((Storage.getEntriesBetweenHashes memory laneId fromHash toHash).map
        (Except.map .entryStream)) ↔
    ∀ l∈streamed laneId fromHash (toHash.or (memory.getLaneHashTip laneId)),
      memory.byHash[l]?.isSome := by
  unfold Storage.getEntriesBetweenHashes
  simp only [Storage.getLaneHashTip,alike.hashTip]
  cases toHash.or (memory.getLaneHashTip laneId) with
  | none => simp [streamed]
  | some hash =>
    rw [streamed_known_iff]
    refine kind_stream_iff LanesStorage.getEntryByHash_eq (alike.entry_of_known hl)
      (fun unknown => (error_of_unknown unknown).2.2) ?_ ?_
    · intro w hw
      exact LanesStorage.length_le_size hw
        fun _ v hk => ⟨v.1,(LanesStorage.getEntryByHash_eq_some.mp hk).1⟩
    · intro _ w hw
      exact alike.length_lt_entries hl hw
        fun _ v hk => ⟨v.1,(LanesStorage.getEntryByHash_eq_some.mp hk).1⟩

theorem latestCar_iff (crypto : BlstCrypto PublicKey BlstSignature) (staking : Staking)
    (car : Option (LaneId × DataProposalHash × LaneBytesSize × PoDA)) :
    Returned.kind ((Storage.getLatestCar fjall laneId crypto staking car).map (Except.map .car))=
      Returned.kind ((Storage.getLatestCar memory laneId crypto staking car).map
        (Except.map .car)) ↔
    ∀ l∈(memory.getLaneHashTip laneId).map fun _ => laneId,memory.byHash[l]?.isSome := by
  rw [LanesStorage.getLatestCar_eq]
  have hf : Storage.getLatestCar fjall laneId crypto staking car=_ :=
    LanesStorage.getLatestCar_eq crypto staking car
  unfold Storage.getLatestCar at hf ⊢
  simp only [Storage.getLaneHashTip,alike.hashTip] at hf ⊢
  generalize memory.getLaneHashTip laneId=tip? at hf ⊢
  cases tip? with
  | none =>
    rw [← hf]
    simp
  | some tip =>
    simp only [Option.map_some,Option.mem_def,Option.some.injEq,forall_eq']
    dsimp only at hf
    by_cases known : memory.byHash[laneId]?.isSome
    · simp only [known,iff_true]
      rw [← hf,alike.metadata_of_known hl known]
      congr 2
      refine latestCarFrom_eq crypto staking car ?_ ?_
      · intro w hw
        exact LanesStorage.length_le_size hw fun _ v hk => ⟨v,hk⟩
      · intro w hw
        exact alike.length_lt_entries hl hw fun _ v hk => ⟨v,hk⟩
    · simp only [known]
      obtain ⟨e,he⟩ := (error_of_unknown known).1
      unfold latestCarFrom
      rw [he]
      cases fjall.getLatestCar crypto laneId staking car with
      | none => simp [Returned.kind]
      | some r => simp [Returned.kind,Except.map,Except.toOption]

end Alike

end Getters

section Calls
variable {lanes : Set LaneId} {fjall : LanesStorage} {memory : StorageMemory.LanesStorage}
  {sha3 : Bytes → H256} {crypto : BlstCrypto PublicKey BlstSignature}

theorem kind_map {α : Type} (make : α → Answer) (r : Outcome α) :
    Returned.kind (some (r.map make))=some (r.toOption.map make) := by
  cases r with
  | ok a => rfl
  | error e => rfl

theorem toOption_iff {α : Type} {known : Prop} {r r' : Outcome α} {make : α → Answer}
    (hk : known → r=r') (hu : ¬known → (∃ a,r=.ok a) ∧ ∃ e,r'=.error e) :
    Returned.kind (some (r.map make))=Returned.kind (some (r'.map make)) ↔ known := by
  by_cases known : known
  · simp [hk known,known]
  · obtain ⟨⟨a,rfl⟩,e,rfl⟩ := hu known
    simp [Returned.kind,Except.map,Except.toOption,known]

/-- A call keeps the storages alike, and returns the same of both if the entries that it looks
up are in a known lane. -/
theorem Alike.call (alike : Alike lanes fjall memory) (sha3 : Bytes → H256)
    (crypto : BlstCrypto PublicKey BlstSignature) (inj : lanes.InjOn ValidatorPublicKey.display)
    {op : Op} (ho : ∀ l∈op.lane,l∈lanes) :
    Alike lanes (call sha3 crypto fjall op).2 (call sha3 crypto memory op).2 ∧
      (Returned.kind (call sha3 crypto fjall op).1=Returned.kind (call sha3 crypto memory op).1 ↔
        ∀ l∈op.looksUp memory.getLaneHashTip,memory.byHash[l]?.isSome) := by
  cases op with
  | put laneId entry =>
    obtain ⟨hr,hs⟩ := alike.put sha3 inj (ho laneId rfl) entry
    refine ⟨hs,?_⟩
    simp only [Storage.call,Storage.put,kind_map,hr,Op.looksUp]
    simp
  | putNoVerification laneId entry =>
    exact ⟨alike.putNoVerification inj (ho laneId rfl) entry,by simp [Storage.call,Op.looksUp]⟩
  | pop laneId =>
    simp only [Storage.call,Storage.pop,kind_map]
    obtain ⟨hf,hm⟩|⟨tip,metadata,dp,_,hf,hm⟩ := alike.pop_cases (ho laneId rfl)
    · rw [hf,hm]
      exact ⟨alike,by simp [Op.looksUp]⟩
    · rw [hf,hm]
      exact ⟨alike.popped inj (ho laneId rfl) tip metadata,by simp [Op.looksUp]⟩
  | addSignatures laneId hash votes =>
    obtain ⟨hr,hs⟩ := alike.addSignatures inj (ho laneId rfl) hash votes
    refine ⟨hs,?_⟩
    simp only [Storage.call,Storage.addSignatures,kind_map,hr,Op.looksUp]
    simp
  | updateLaneTip laneId hash size =>
    refine ⟨alike.updateLaneTip laneId hash size,?_⟩
    simp [Storage.call,Storage.updateLaneTip,alike.tips,Op.looksUp]
  | cleanAndUpdateLane laneId previous new size =>
    obtain ⟨fjall',memory',hf,hm,hs⟩ :=
      alike.cleanAndUpdateLane sha3 inj (ho laneId rfl) previous new size
    simp only [Storage.call,hf,hm]
    exact ⟨hs,by simp [Op.looksUp]⟩
  | contains laneId hash =>
    refine ⟨alike,?_⟩
    simp [Storage.call,Storage.contains,alike.contains (ho laneId rfl),Op.looksUp]
  | getMetadataByHash laneId hash =>
    refine ⟨alike,?_⟩
    simp only [Storage.call,Op.looksUp,Option.mem_def,Option.some.injEq,forall_eq']
    apply toOption_iff
    · intro known
      rw [alike.metadata_of_known (ho laneId rfl) known]
    · intro unknown
      obtain ⟨e,he⟩ := (error_of_unknown unknown).1
      exact ⟨⟨_,rfl⟩,e,he hash⟩
  | getDpByHash laneId hash =>
    refine ⟨alike,?_⟩
    simp only [Storage.call,Op.looksUp,Option.mem_def,Option.some.injEq,forall_eq']
    apply toOption_iff
    · intro known
      rw [alike.dp_of_known (ho laneId rfl) known]
    · intro unknown
      obtain ⟨e,he⟩ := (error_of_unknown unknown).2.1
      exact ⟨⟨_,rfl⟩,e,he hash⟩
  | getLaneSizeAt laneId hash =>
    refine ⟨alike,?_⟩
    simp only [Storage.call,Op.looksUp,Option.mem_def,Option.some.injEq,forall_eq']
    apply toOption_iff
    · intro known
      unfold Storage.getLaneSizeAt
      rw [alike.metadata_of_known (ho laneId rfl) known]
    · intro unknown
      obtain ⟨e,he⟩ := (error_of_unknown unknown).1
      refine ⟨⟨_,LanesStorage.getLaneSizeAt_eq hash⟩,e,?_⟩
      unfold Storage.getLaneSizeAt
      rw [he]
      rfl
  | getLaneIds =>
    refine ⟨alike,?_⟩
    simp [Storage.call,Storage.getLaneIds,alike.tips,Op.looksUp]
  | getLaneHashTip laneId =>
    refine ⟨alike,?_⟩
    simp [Storage.call,Storage.getLaneHashTip,alike.hashTip,Op.looksUp]
  | getLaneSizeTip laneId =>
    refine ⟨alike,?_⟩
    simp [Storage.call,Storage.getLaneSizeTip,LanesStorage.getLaneSizeTip,
      StorageMemory.LanesStorage.getLaneSizeTip,alike.tips,Op.looksUp]
  | getEntriesMetadataBetweenHashes laneId fromHash toHash =>
    exact ⟨alike,alike.metadataStream_iff (ho laneId rfl) fromHash toHash⟩
  | getEntriesBetweenHashes laneId fromHash toHash =>
    exact ⟨alike,alike.entryStream_iff (ho laneId rfl) fromHash toHash⟩
  | getPendingEntriesInLane laneId lastCut =>
    refine ⟨alike,?_⟩
    have h := alike.metadataStream_iff (ho laneId rfl)
      (lastCut.bind fun cut => (cut.find? (fun car => car.1=laneId)).map fun car => car.2.1)
      (memory.getLaneHashTip laneId)
    rw [Option.or_self] at h
    simp only [Storage.call,Storage.getPendingEntriesInLane,Op.looksUp]
    rw [← h]
    simp only [Storage.getLaneHashTip,alike.hashTip]
  | getLatestCar laneId staking car =>
    exact ⟨alike,alike.latestCar_iff (ho laneId rfl) crypto staking car⟩

/-- Alike storages agree along a run exactly when entries are looked up in known lanes only. -/
theorem Alike.agree_iff_reads (inj : lanes.InjOn ValidatorPublicKey.display)
    (alike : Alike lanes fjall memory) {ops : List Op} (ho : ∀ op∈ops,∀ l∈op.lane,l∈lanes) :
    Agree sha3 crypto fjall memory ops ↔ KnownLanes sha3 crypto memory ops := by
  induction ops generalizing fjall memory with
  | nil => simp [Agree,KnownLanes,alike.tips]
  | cons op ops ih =>
    obtain ⟨next,hkind⟩ := alike.call sha3 crypto inj (ho op List.mem_cons_self)
    have tail := ih next fun o hm => ho o (List.mem_cons_of_mem op hm)
    simp only [Agree,KnownLanes,hkind,tail,alike.tips,true_and]

/-- An entry of one lane is there in another one that is displayed alike. -/
theorem not_agree_of_display {laneId laneId' : LaneId} (hne : laneId≠laneId')
    (hd : ValidatorPublicKey.display laneId=ValidatorPublicKey.display laneId')
    (tips : Std.ExtTreeMap LaneId (DataProposalHash × LaneBytesSize))
    (entry : LaneEntryMetadata × DataProposal) :
    ¬Agree sha3 crypto ⟨tips,∅,∅⟩ ⟨tips,∅⟩
      [.putNoVerification laneId entry,.contains laneId' (entry.2.hashed sha3)] := by
  intro agree
  have hkind := agree.2.2.2.1
  simp only [Storage.call,Storage.putNoVerification,Storage.contains,Returned.kind,
    Option.map_some,Except.toOption,Option.some.injEq,Answer.stored.injEq] at hkind
  have there : (LanesStorage.putNoVerification sha3 ⟨tips,∅,∅⟩ laneId entry).contains laneId'
      (entry.2.hashed sha3)=true := by
    refine LanesStorage.contains_eq_true.mpr ⟨entry.1,?_⟩
    rw [LanesStorage.getMetadataByHash_putNoVerification,
      if_pos (LanesStorage.key_inj.mpr ⟨hd.symm,rfl⟩)]
  have away : (StorageMemory.LanesStorage.putNoVerification sha3 ⟨tips,∅⟩ laneId entry).contains
      laneId' (entry.2.hashed sha3)=false := by
    rw [StorageMemory.LanesStorage.contains_eq,← Bool.not_eq_true,
      ← Std.ExtTreeMap.mem_iff_contains,Std.ExtTreeMap.mem_iff_isSome_getElem?,
      StorageMemory.LanesStorage.getElem?_putNoVerification]
    simp [Ne.symm hne,StorageMemory.LanesStorage.lane]
  rw [there,away] at hkind
  cases hkind

end Calls

/-- Over a set of lanes, the storages agree in the runs whose lookups are in known lanes and in
no others, exactly when no two of the lanes are displayed alike. -/
theorem agree_iff_knownLanes (sha3 : Bytes → H256) (crypto : BlstCrypto PublicKey BlstSignature)
    (lanes : Set LaneId) :
    (∀ (tips : Std.ExtTreeMap LaneId (DataProposalHash × LaneBytesSize)) (ops : List Op),
      (∀ op∈ops,∀ l∈op.lane,l∈lanes) →
      (Agree sha3 crypto ⟨tips,∅,∅⟩ ⟨tips,∅⟩ ops ↔ KnownLanes sha3 crypto ⟨tips,∅⟩ ops)) ↔
    lanes.InjOn ValidatorPublicKey.display := by
  constructor
  · intro agree laneId hl laneId' hl' hd
    by_contra hne
    let entry : LaneEntryMetadata × DataProposal := (⟨none,0,[]⟩,⟨none,[]⟩)
    refine not_agree_of_display hne hd ∅ entry ((agree ∅ _ ?_).mpr ?_)
    · intro op ho l hlane
      obtain rfl|rfl : op=.putNoVerification laneId entry ∨
          op=.contains laneId' (entry.2.hashed sha3) := by simpa using ho
      · obtain rfl := Option.some.inj hlane
        exact hl
      · obtain rfl := Option.some.inj hlane
        exact hl'
    · simp [KnownLanes,Op.looksUp]
  · intro inj tips ops ho
    exact (alike_empty lanes tips).agree_iff_reads inj ho

end

open Mempool.SmallLanes in
/-- Two lanes whose operators start with the same three bytes, and a lane that nothing was put
in. -/
theorem not_agree_display_unknown :
    ¬Agree sha3 env.crypto ⟨∅,∅,∅⟩ ⟨∅,∅⟩
        [.putNoVerification [1,2,3,4] (⟨none,0,[]⟩,first),
          .contains [1,2,3,5] (first.hashed sha3)] ∧
      ¬Agree sha3 env.crypto ⟨∅,∅,∅⟩ ⟨∅,∅⟩ [.getMetadataByHash [1] (first.hashed sha3)] := by
  constructor
  · exact not_agree_of_display (by decide) (by decide) ∅ (⟨none,0,[]⟩,first)
  · intro agree
    have hkind := agree.2.1
    simp only [Storage.call,Storage.getMetadataByHash,kind_map] at hkind
    simp [StorageMemory.LanesStorage.getMetadataByHash,Except.toOption,err] at hkind

end TruthSeeker
