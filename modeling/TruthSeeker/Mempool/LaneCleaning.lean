import TruthSeeker.Mempool.LaneChanges
import TruthSeeker.Mempool.StorageMemory

namespace TruthSeeker

open Outcome

namespace Storage

/-- The metadata that is stored for a hash: none in a lane that is not known. -/
def metadata? {σ : Type} [Storage σ] (self : σ) (laneId : LaneId) (hash : DataProposalHash) :
    Option LaneEntryMetadata := (getMetadataByHash self laneId hash).toOption.join

/-- The data proposal that is stored for a hash. -/
def dp? {σ : Type} [Storage σ] (self : σ) (laneId : LaneId) (hash : DataProposalHash) :
    Option DataProposal := (getDpByHash self laneId hash).toOption.join

end Storage

open Storage

/-- A storage whose `pop` takes out the entry of the tip and leaves the tip as it is. -/
class LawfulStorage (σ : Type) extends Storage σ where
  pop_of_no_tip : ∀ (self : σ) laneId,getLaneHashTip self laneId=none →
    pop self laneId=(.ok none,self)
  pop_of_missing : ∀ (self : σ) laneId tip,getLaneHashTip self laneId=some tip →
    metadata? self laneId tip=none → pop self laneId=(.ok none,self)
  pop_of_stored : ∀ (self : σ) laneId tip metadata dp,getLaneHashTip self laneId=some tip →
    metadata? self laneId tip=some metadata → dp? self laneId tip=some dp →
    ∃ next,pop self laneId=(.ok (some (tip,metadata,dp)),next) ∧
      getLaneHashTip next laneId=some tip ∧
      (∀ h,metadata? next laneId h=if h=tip then none else metadata? self laneId h) ∧
      (∀ h,dp? next laneId h=if h=tip then none else dp? self laneId h)
  put_on_tip : ∀ sha3 (self : σ) laneId entry,
    metadata? self laneId (entry.2.hashed sha3)=none →
    entry.1.parentDataProposalHash=getLaneHashTip self laneId →
    ∃ next,put sha3 self laneId entry=(.ok (),next) ∧
      getLaneHashTip next laneId=some (entry.2.hashed sha3) ∧
      (∀ h,metadata? next laneId h=
        if h=entry.2.hashed sha3 then some entry.1 else metadata? self laneId h) ∧
      (∀ h,dp? next laneId h=
        if h=entry.2.hashed sha3 then some entry.2 else dp? self laneId h)
  tip_updateLaneTip : ∀ (self : σ) laneId hash size,
    getLaneHashTip (updateLaneTip self laneId hash size).2 laneId=some hash ∧
    getLaneSizeTip (updateLaneTip self laneId hash size).2 laneId=some size
  stored_updateLaneTip : ∀ (self : σ) laneId hash size h,
    metadata? (updateLaneTip self laneId hash size).2 laneId h=metadata? self laneId h ∧
    dp? (updateLaneTip self laneId hash size).2 laneId h=dp? self laneId h

section Cleaning
variable {σ : Type} [Storage σ]

/-- An entry with the hash that it is stored under. -/
abbrev StoredEntry := DataProposalHash × LaneEntryMetadata × DataProposal

/-- The entries of the chain above the previous cut, and those from it down. -/
def above (chain : List StoredEntry) (previous : Option DataProposalHash) : List StoredEntry :=
  chain.takeWhile (fun e => some e.1≠previous)

def below (chain : List StoredEntry) (previous : Option DataProposalHash) : List StoredEntry :=
  chain.dropWhile (fun e => some e.1≠previous)

/-- The stored entries of the lane are a chain of parents from its tip down. -/
structure StoresChain (lanes : σ) (laneId : LaneId) (chain : List StoredEntry) : Prop where
  tip : getLaneHashTip lanes laneId=chain.head?.map Prod.fst
  linked : chain.IsChain (fun a b => a.2.1.parentDataProposalHash=some b.1)
  ends : ∀ last∈chain.getLast?,∀ parent∈last.2.1.parentDataProposalHash,
    parent∉chain.map Prod.fst
  nodup : (chain.map Prod.fst).Nodup
  metadata : ∀ h,metadata? lanes laneId h=(chain.find? (fun e => e.1=h)).map (fun e => e.2.1)
  dp : ∀ h,dp? lanes laneId h=(chain.find? (fun e => e.1=h)).map (fun e => e.2.2)

/-- After the cleaning nothing above the previous cut is stored, the rest is stored as it was,
and the tip is the new one. -/
def CleansUp (sha3 : Bytes → H256) (lanes : σ) (laneId : LaneId) (chain : List StoredEntry)
    (previous : Option DataProposalHash) (new : DataProposalHash) (size : LaneBytesSize) : Prop :=
  ∃ next,cleanAndUpdateLane sha3 lanes laneId previous new size=(.ok (),next) ∧
    (∀ e∈above chain previous,metadata? next laneId e.1=none ∧ dp? next laneId e.1=none) ∧
    (∀ e∈below chain previous,
      metadata? next laneId e.1=some e.2.1 ∧ dp? next laneId e.1=some e.2.2) ∧
    getLaneHashTip next laneId=some new ∧ getLaneSizeTip next laneId=some size

/-- Taking out the entry of the tip makes its parent the tip. -/
def PopMovesTip (lanes : σ) (laneId : LaneId) (chain : List StoredEntry) : Prop :=
  ∀ e∈chain.head?,∃ next,pop lanes laneId=(.ok (some e),next) ∧
    metadata? next laneId e.1=none ∧
    getLaneHashTip next laneId=e.2.1.parentDataProposalHash

variable {lanes : σ} {laneId : LaneId} {chain rest : List StoredEntry} {e : StoredEntry}
  {previous : Option DataProposalHash} {new : DataProposalHash} {size : LaneBytesSize}

theorem find?_of_nodup (hn : (chain.map Prod.fst).Nodup) (he : e∈chain) :
    chain.find? (fun a => a.1=e.1)=some e := by
  induction chain with
  | nil => cases he
  | cons a chain ih =>
    rw [List.map_cons,List.nodup_cons] at hn
    obtain rfl|hm := List.mem_cons.mp he
    · simp
    · have hne : a.1≠e.1 := by
        intro h
        exact hn.1 (h ▸ List.mem_map_of_mem hm)
      rw [List.find?_cons_of_neg (by simpa using hne)]
      exact ih hn.2 hm

theorem StoresChain.stored (h : StoresChain lanes laneId chain) (he : e∈chain) :
    metadata? lanes laneId e.1=some e.2.1 ∧ dp? lanes laneId e.1=some e.2.2 := by
  rw [h.metadata,h.dp,find?_of_nodup h.nodup he]
  exact ⟨rfl,rfl⟩

/-- The parent of the tip is another hash. -/
theorem StoresChain.parent_ne (h : StoresChain lanes laneId (e::rest)) :
    e.2.1.parentDataProposalHash≠some e.1 := by
  intro hp
  cases rest with
  | nil => exact h.ends e rfl e.1 hp (by simp)
  | cons b rest =>
    have hb : e.2.1.parentDataProposalHash=some b.1 := (List.isChain_cons_cons.mp h.linked).1
    have he : e.1=b.1 := Option.some.inj (hp.symm.trans hb)
    have hn := h.nodup
    simp [he] at hn

end Cleaning

section Lawful
variable {σ : Type} [LawfulStorage σ] {sha3 : Bytes → H256} {lanes : σ} {laneId : LaneId}
  {chain rest : List StoredEntry} {e : StoredEntry} {previous : Option DataProposalHash}
  {new : DataProposalHash} {size : LaneBytesSize}

/-- The loop ends when there is no entry to take out. -/
theorem popUntil_of_ended (h : pop lanes laneId=(.ok none,lanes)) (fuel : Nat) :
    popUntil sha3 laneId previous fuel lanes=(.ok (),lanes) := by
  cases fuel with
  | zero => rfl
  | succ fuel =>
    unfold popUntil
    rw [h]

/-- The loop takes out one entry: its hash stays the tip, and the next round finds no entry for
it. -/
theorem StoresChain.cleanAndUpdateLane_cons (h : StoresChain lanes laneId (e::rest))
    (hp : some e.1≠previous) (hn : metadata? lanes laneId new=none) (sha3 : Bytes → H256)
    (size : LaneBytesSize) :
    ∃ next,cleanAndUpdateLane sha3 lanes laneId previous new size=
        (.ok (),(updateLaneTip next laneId new size).2) ∧
      pop lanes laneId=(.ok (some e),next) ∧ getLaneHashTip next laneId=some e.1 ∧
      (∀ h,metadata? next laneId h=if h=e.1 then none else metadata? lanes laneId h) ∧
      (∀ h,dp? next laneId h=if h=e.1 then none else dp? lanes laneId h) := by
  obtain ⟨hm,hd⟩ := h.stored List.mem_cons_self
  have htip : getLaneHashTip lanes laneId=some e.1 := h.tip
  obtain ⟨next,hpop,hstays,hmeta,hdp⟩ := LawfulStorage.pop_of_stored lanes laneId _ _ _ htip hm hd
  have hnew : some e.1≠some new := by
    intro he
    rw [Option.some.inj he,hn] at hm
    cases hm
  have hmissing : metadata? next laneId e.1=none := by
    rw [hmeta,if_pos rfl]
  have ended := LawfulStorage.pop_of_missing next laneId _ hstays hmissing
  refine ⟨next,?_,hpop,hstays,hmeta,hdp⟩
  unfold cleanAndUpdateLane
  simp only [htip]
  rw [if_pos ⟨hp,hnew⟩]
  unfold popUntil
  rw [hpop]
  simp only [if_neg hp,popUntil_of_ended ended]

/-- A lane whose tip is the previous cut keeps its entries. -/
theorem cleanAndUpdateLane_of_tip (h : getLaneHashTip lanes laneId=previous) :
    cleanAndUpdateLane sha3 lanes laneId previous new size=
      (.ok (),(updateLaneTip lanes laneId new size).2) := by
  unfold cleanAndUpdateLane
  simp only [h,ne_eq,not_true,false_and,if_false]

theorem StoresChain.cleansUp_of_tip (h : StoresChain lanes laneId chain)
    (hp : chain.head?.map Prod.fst=previous) :
    CleansUp sha3 lanes laneId chain previous new size := by
  refine ⟨_,cleanAndUpdateLane_of_tip (h.tip.trans hp),?_,?_,
    (LawfulStorage.tip_updateLaneTip lanes laneId new size).1,
    (LawfulStorage.tip_updateLaneTip lanes laneId new size).2⟩
  · intro e he
    cases chain with
    | nil => simp [above] at he
    | cons a chain =>
      have ha : some a.1=previous := hp
      simp [above,ha] at he
  · intro e he
    have hm := h.stored ((List.dropWhile_sublist _).subset he)
    obtain ⟨hmeta,hdp⟩ := LawfulStorage.stored_updateLaneTip lanes laneId new size e.1
    rw [hmeta,hdp]
    exact hm

/-- Below an entry that is taken out, the clean-up is right if nothing else had to go. -/
theorem StoresChain.cleansUp_cons_iff (h : StoresChain lanes laneId (e::rest))
    (hp : some e.1≠previous) (hn : metadata? lanes laneId new=none) :
    CleansUp sha3 lanes laneId (e::rest) previous new size ↔ above rest previous=[] := by
  have habove : above (e::rest) previous=e::above rest previous :=
    List.takeWhile_cons_of_pos (by simpa using hp)
  have hbelow : below (e::rest) previous=below rest previous :=
    List.dropWhile_cons_of_pos (by simpa using hp)
  have apart : ∀ a∈rest,a.1≠e.1 := by
    intro a ha he
    have hnodup := h.nodup
    rw [List.map_cons,List.nodup_cons] at hnodup
    exact hnodup.1 (he ▸ List.mem_map_of_mem ha)
  obtain ⟨next,hclean,_,_,hmeta,hdp⟩ := h.cleanAndUpdateLane_cons hp hn sha3 size
  have stored : ∀ a,metadata? (updateLaneTip next laneId new size).2 laneId a=
        (if a=e.1 then none else metadata? lanes laneId a) ∧
      dp? (updateLaneTip next laneId new size).2 laneId a=
        if a=e.1 then none else dp? lanes laneId a := by
    intro a
    obtain ⟨hm,hd⟩ := LawfulStorage.stored_updateLaneTip next laneId new size a
    rw [hm,hd,hmeta,hdp]
    exact ⟨rfl,rfl⟩
  constructor
  · rintro ⟨next',hclean',gone,_,_⟩
    obtain rfl : (updateLaneTip next laneId new size).2=next' :=
      (Prod.mk.inj (hclean.symm.trans hclean')).2
    rw [habove] at gone
    apply List.eq_nil_iff_forall_not_mem.mpr
    intro a ha
    have hr : a∈rest := (List.takeWhile_sublist _).subset ha
    have hnone := (gone a (List.mem_cons_of_mem e ha)).1
    rw [(stored a.1).1,if_neg (apart a hr),(h.stored (List.mem_cons_of_mem e hr)).1] at hnone
    cases hnone
  · intro hnil
    refine ⟨_,hclean,?_,?_,(LawfulStorage.tip_updateLaneTip next laneId new size).1,
      (LawfulStorage.tip_updateLaneTip next laneId new size).2⟩
    · rw [habove,hnil]
      intro a ha
      obtain rfl := List.mem_singleton.mp ha
      rw [(stored a.1).1,(stored a.1).2,if_pos rfl,if_pos rfl]
      exact ⟨rfl,rfl⟩
    · rw [hbelow]
      intro a ha
      have hr : a∈rest := (List.dropWhile_sublist _).subset ha
      rw [(stored a.1).1,(stored a.1).2,if_neg (apart a hr),if_neg (apart a hr)]
      exact h.stored (List.mem_cons_of_mem e hr)

/-- The clean-up takes out at most one entry. -/
theorem StoresChain.cleansUp_iff (h : StoresChain lanes laneId chain)
    (hp : previous=none ∨ ∃ e∈chain,previous=some e.1) (hn : metadata? lanes laneId new=none) :
    CleansUp sha3 lanes laneId chain previous new size ↔ (above chain previous).length ≤ 1 := by
  cases chain with
  | nil =>
    obtain rfl|⟨e,he,_⟩ := hp
    · have hc : CleansUp sha3 lanes laneId [] none new size := h.cleansUp_of_tip rfl
      simp only [hc,true_iff]
      simp [above]
    · cases he
  | cons e rest =>
    by_cases he : some e.1=previous
    · have hc : CleansUp sha3 lanes laneId (e::rest) previous new size := h.cleansUp_of_tip he
      simp only [hc,true_iff]
      simp [above,he]
    · have habove : above (e::rest) previous=e::above rest previous :=
        List.takeWhile_cons_of_pos (by simpa using he)
      rw [h.cleansUp_cons_iff he hn,habove,List.length_cons,← List.length_eq_zero_iff]
      omega

theorem StoresChain.popMovesTip_iff (h : StoresChain lanes laneId chain) :
    PopMovesTip lanes laneId chain ↔ chain=[] := by
  cases chain with
  | nil => simp [PopMovesTip]
  | cons e rest =>
    simp only [reduceCtorEq,iff_false]
    intro moves
    obtain ⟨hm,hd⟩ := h.stored List.mem_cons_self
    obtain ⟨next,hpop,htip,_⟩ := LawfulStorage.pop_of_stored lanes laneId _ _ _ h.tip hm hd
    obtain ⟨next',hpop',_,htip'⟩ := moves e rfl
    obtain rfl : next=next' := (Prod.mk.inj (hpop.symm.trans hpop')).2
    exact h.parent_ne (htip'.symm.trans htip)

/-- An entry that is put on the tip of a chain from the first entry of the lane. -/
theorem StoresChain.put (h : StoresChain lanes laneId chain)
    (hroot : ∀ last∈chain.getLast?,last.2.1.parentDataProposalHash=none)
    {metadata : LaneEntryMetadata} {dp : DataProposal}
    (hm : metadata? lanes laneId (dp.hashed sha3)=none)
    (hp : metadata.parentDataProposalHash=chain.head?.map Prod.fst) :
    StoresChain (put sha3 lanes laneId (metadata,dp)).2 laneId
      ((dp.hashed sha3,metadata,dp)::chain) := by
  obtain ⟨next,hput,htip,hmeta,hdp⟩ :=
    LawfulStorage.put_on_tip sha3 lanes laneId (metadata,dp) hm (hp.trans h.tip.symm)
  rw [hput]
  constructor
  · exact htip
  · cases chain with
    | nil => exact .singleton _
    | cons a chain => exact List.isChain_cons_cons.mpr ⟨hp,h.linked⟩
  · intro last hlast parent hparent
    have root : last.2.1.parentDataProposalHash=none := by
      cases chain with
      | nil =>
        obtain rfl := Option.some.inj hlast
        exact hp
      | cons a chain => exact hroot last (by rwa [List.getLast?_cons_cons] at hlast)
    rw [root] at hparent
    cases hparent
  · rw [List.map_cons,List.nodup_cons]
    refine ⟨?_,h.nodup⟩
    intro hmem
    obtain ⟨e,he,hh⟩ := List.mem_map.mp hmem
    have hs := (h.stored he).1
    rw [hh,hm] at hs
    cases hs
  · intro k
    rw [hmeta,h.metadata]
    by_cases hk : k=dp.hashed sha3
    · simp [hk]
    · rw [if_neg hk,List.find?_cons_of_neg (by simpa using Ne.symm hk)]
  · intro k
    rw [hdp,h.dp]
    by_cases hk : k=dp.hashed sha3
    · simp [hk]
    · rw [if_neg hk,List.find?_cons_of_neg (by simpa using Ne.symm hk)]

end Lawful

namespace LanesStorage

theorem metadata?_eq {self : LanesStorage} {laneId : LaneId} {h : DataProposalHash} :
    metadata? self laneId h=self.getMetadataByHash laneId h := rfl

theorem dp?_eq {self : LanesStorage} {laneId : LaneId} {h : DataProposalHash} :
    dp? self laneId h=self.getDpByHash laneId h := rfl

instance : LawfulStorage LanesStorage where
  pop_of_no_tip self laneId ht := by
    simp only [Storage.getLaneHashTip] at ht
    simp only [Storage.pop,pop,ht]
  pop_of_missing self laneId tip ht hm := by
    simp only [Storage.getLaneHashTip,metadata?_eq] at ht hm
    simp only [Storage.pop,pop,ht,hm]
  pop_of_stored self laneId tip metadata dp ht hm hd := by
    simp only [Storage.getLaneHashTip,metadata?_eq,dp?_eq] at ht hm hd
    refine ⟨self.popped laneId tip metadata,?_,?_,?_,?_⟩
    · simp only [Storage.pop,pop,ht,hm,hd]
      rfl
    · simp only [Storage.getLaneHashTip,getLaneHashTip,lanesTip_popped,if_pos]
      rfl
    · intro h
      simp only [metadata?_eq,getMetadataByHash_popped,(key_injective laneId).eq_iff]
    · intro h
      simp only [dp?_eq,getDpByHash_popped,(key_injective laneId).eq_iff]
  put_on_tip sha3 self laneId entry hm hp := by
    simp only [Storage.getLaneHashTip,metadata?_eq] at hm hp
    refine ⟨self.appended sha3 laneId entry.1 entry.2,?_,?_,?_,?_⟩
    · have hc := contains_eq_false.mpr hm
      simp only [Storage.put,put,hc,canBePutOnTop,hp,if_pos]
      rfl
    · simp only [Storage.getLaneHashTip,getLaneHashTip,appended,lanesTip_updateLaneTip,if_pos]
      rfl
    · intro h
      simp only [metadata?_eq,getMetadataByHash_appended,(key_injective laneId).eq_iff]
    · intro h
      simp only [dp?_eq,appended,getDpByHash_updateLaneTip,getDpByHash_putNoVerification,
        (key_injective laneId).eq_iff]
  tip_updateLaneTip self laneId hash size := by
    simp only [Storage.getLaneHashTip,Storage.getLaneSizeTip,Storage.updateLaneTip,getLaneHashTip,
      getLaneSizeTip,lanesTip_updateLaneTip,if_pos]
    exact ⟨rfl,rfl⟩
  stored_updateLaneTip self laneId hash size h := ⟨rfl,rfl⟩

end LanesStorage

namespace StorageMemory.LanesStorage

variable {self : LanesStorage} {laneId : LaneId} {h : DataProposalHash}

theorem metadata?_eq : metadata? self laneId h=(self.lane laneId)[h]?.map Prod.fst := by
  unfold metadata?
  simp only [Storage.getMetadataByHash,getMetadataByHash,lane]
  cases self.byHash[laneId]? with
  | none =>
    simp only [Option.getD_none,Std.ExtTreeMap.getElem?_empty]
    rfl
  | some lane => rfl

theorem dp?_eq : dp? self laneId h=(self.lane laneId)[h]?.map Prod.snd := by
  unfold dp?
  simp only [Storage.getDpByHash,getDpByHash,lane]
  cases self.byHash[laneId]? with
  | none =>
    simp only [Option.getD_none,Std.ExtTreeMap.getElem?_empty]
    rfl
  | some lane => rfl

instance : LawfulStorage LanesStorage where
  pop_of_no_tip self laneId ht := by
    simp only [Storage.getLaneHashTip] at ht
    simp only [Storage.pop,pop,ht]
  pop_of_missing self laneId tip ht hm := by
    rw [metadata?_eq,Option.map_eq_none_iff] at hm
    exact pop_of_not_getElem? ht hm
  pop_of_stored self laneId tip metadata dp ht hm hd := by
    rw [metadata?_eq,Option.map_eq_some_iff] at hm
    obtain ⟨⟨_,dp'⟩,he,rfl⟩ := hm
    rw [dp?_eq,he] at hd
    obtain rfl := Option.some.inj hd
    refine ⟨_,pop_of_getElem? ht he,?_,?_,?_⟩
    · simp [Storage.getLaneHashTip,getLaneHashTip,popped,updateLaneTip]
    · intro h
      rw [metadata?_eq,metadata?_eq,getElem?_popped]
      simp only [true_and]
      split_ifs <;> rfl
    · intro h
      rw [dp?_eq,dp?_eq,getElem?_popped]
      simp only [true_and]
      split_ifs <;> rfl
  put_on_tip sha3 self laneId entry hm hp := by
    rw [metadata?_eq,Option.map_eq_none_iff] at hm
    simp only [Storage.getLaneHashTip] at hp
    refine ⟨(self.putNoVerification sha3 laneId entry).updateLaneTip laneId
      (entry.2.hashed sha3) entry.1.cumulSize,?_,?_,?_,?_⟩
    · have hc : self.contains laneId (entry.2.hashed sha3)=false := by
        rw [contains_eq,← Bool.not_eq_true,← Std.ExtTreeMap.mem_iff_contains,
          Std.ExtTreeMap.mem_iff_isSome_getElem?,hm]
        simp
      simp only [Storage.put,put,hc,CanBePutOnTop.of,hp,if_pos]
      rfl
    · simp [Storage.getLaneHashTip,getLaneHashTip,updateLaneTip]
    · intro h
      rw [metadata?_eq,metadata?_eq,lane_updateLaneTip,getElem?_putNoVerification]
      simp only [true_and]
      split_ifs <;> rfl
    · intro h
      rw [dp?_eq,dp?_eq,lane_updateLaneTip,getElem?_putNoVerification]
      simp only [true_and]
      split_ifs <;> rfl
  tip_updateLaneTip self laneId hash size := by
    simp [Storage.getLaneHashTip,Storage.getLaneSizeTip,Storage.updateLaneTip,getLaneHashTip,
      getLaneSizeTip,updateLaneTip]
  stored_updateLaneTip self laneId hash size h := ⟨rfl,rfl⟩

end StorageMemory.LanesStorage

/-- The clean-up of a lane is right exactly when at most one entry lies above the previous cut,
and `pop` moves the tip of no lane that has an entry. -/
def CleaningExact {σ : Type} [Storage σ] (sha3 : Bytes → H256) (lanes : σ) (laneId : LaneId)
    (chain : List StoredEntry) (previous : Option DataProposalHash) (new : DataProposalHash)
    (size : LaneBytesSize) : Prop :=
  (CleansUp sha3 lanes laneId chain previous new size ↔ (above chain previous).length ≤ 1) ∧
    (PopMovesTip lanes laneId chain ↔ chain=[])

theorem StoresChain.cleaningExact {σ : Type} [LawfulStorage σ] {sha3 : Bytes → H256}
    {lanes : σ} {laneId : LaneId} {chain : List StoredEntry}
    {previous : Option DataProposalHash} {new : DataProposalHash} {size : LaneBytesSize}
    (h : StoresChain lanes laneId chain) (hp : previous=none ∨ ∃ e∈chain,previous=some e.1)
    (hn : new∉chain.map Prod.fst) :
    CleaningExact sha3 lanes laneId chain previous new size := by
  have missing : metadata? lanes laneId new=none := by
    rw [h.metadata,List.find?_eq_none.mpr]
    · rfl
    · intro e he same
      exact hn (List.mem_map.mpr ⟨e,he,of_decide_eq_true same⟩)
  exact ⟨h.cleansUp_iff hp missing,h.popMovesTip_iff⟩

/-- In both storages the clean-up is right exactly when at most one entry lies above the
previous cut: `pop` leaves the tip as it is, so the loop ends after its first round. -/
theorem cleaning_exact (sha3 : Bytes → H256) (laneId : LaneId) (chain : List StoredEntry)
    (previous : Option DataProposalHash) (new : DataProposalHash) (size : LaneBytesSize)
    (hp : previous=none ∨ ∃ e∈chain,previous=some e.1) (hn : new∉chain.map Prod.fst) :
    (∀ lanes : LanesStorage,StoresChain lanes laneId chain →
      CleaningExact sha3 lanes laneId chain previous new size) ∧
    ∀ lanes : StorageMemory.LanesStorage,StoresChain lanes laneId chain →
      CleaningExact sha3 lanes laneId chain previous new size :=
  ⟨fun _ h => h.cleaningExact hp hn,fun _ h => h.cleaningExact hp hn⟩

namespace TwoProposals

/-- SHA3-256 at what the two data proposals lead to. -/
def sha3 : Bytes → H256 := ByteVec.lookup
  [([],ByteVec.ofNat 32 0xa7ffc6f8bf1ed76651c14756a061d662f580ff4de43b49fa82d80a4b80f8434a),
    (utf8 "a7ffc6f8bf1ed76651c14756a061d662f580ff4de43b49fa82d80a4b80f8434a",
      ByteVec.ofNat 32 0x42012470e20e90036b3098da71e1056ce0e561031bc41fa47faa1d1269f93a2e)]

def first : DataProposal := ⟨none,[]⟩

def second : DataProposal := ⟨some (first.hashed sha3),[]⟩

def chain : List StoredEntry :=
  [(second.hashed sha3,⟨some (first.hashed sha3),0,[]⟩,second),
    (first.hashed sha3,⟨none,0,[]⟩,first)]

/-- The lane with both data proposals. -/
def stored {σ : Type} [Storage σ] (lanes : σ) : σ :=
  (put sha3 (put sha3 lanes [1] (⟨none,0,[]⟩,first)).2 [1]
    (⟨some (first.hashed sha3),0,[]⟩,second)).2

theorem storesChain_stored {σ : Type} [LawfulStorage σ] {lanes : σ}
    (h : StoresChain lanes [1] []) : StoresChain (stored lanes) [1] chain := by
  have one : StoresChain (put sha3 lanes [1] (⟨none,0,[]⟩,first)).2 [1]
      [(first.hashed sha3,⟨none,0,[]⟩,first)] :=
    h.put (by simp) (h.metadata _) rfl
  refine one.put (by simp) ?_ rfl
  have apart : first.hashed sha3≠second.hashed sha3 := by decide +kernel
  rw [one.metadata,List.find?_cons_of_neg (by simpa using apart)]
  rfl

theorem storesChain_empty :
    StoresChain LanesStorage.empty [1] [] ∧ StoresChain StorageMemory.LanesStorage.empty [1] [] := by
  refine ⟨⟨rfl,.nil,by simp,List.nodup_nil,?_,?_⟩,⟨rfl,.nil,by simp,List.nodup_nil,?_,?_⟩⟩
  all_goals intro h
  · simp [LanesStorage.metadata?_eq,LanesStorage.getMetadataByHash,LanesStorage.empty]
  · simp [LanesStorage.dp?_eq,LanesStorage.getDpByHash,LanesStorage.empty]
  · simp [StorageMemory.LanesStorage.metadata?_eq,StorageMemory.LanesStorage.lane,
      StorageMemory.LanesStorage.empty]
  · simp [StorageMemory.LanesStorage.dp?_eq,StorageMemory.LanesStorage.lane,
      StorageMemory.LanesStorage.empty]

theorem new_notMem : "new"∉chain.map Prod.fst := by decide +kernel

theorem not_cleansUp {σ : Type} [LawfulStorage σ] {lanes : σ}
    (h : StoresChain lanes [1] chain) : ¬CleansUp sha3 lanes [1] chain none "new" 13 := by
  rw [(h.cleaningExact (Or.inl rfl) new_notMem).1]
  simp [above,chain]

end TwoProposals

open TwoProposals in
/-- With the first of two data proposals in the previous cut, the second one is cleaned up. -/
theorem cleaning_exact_second :
    CleansUp sha3 (stored LanesStorage.empty) [1] chain (some (first.hashed sha3)) "new" 13 ∧
    CleansUp sha3 (stored StorageMemory.LanesStorage.empty) [1] chain
      (some (first.hashed sha3)) "new" 13 := by
  have listed : some (first.hashed sha3)=none ∨
      ∃ e∈chain,some (first.hashed sha3)=some e.1 :=
    Or.inr ⟨_,List.mem_cons_of_mem _ List.mem_cons_self,rfl⟩
  have few : (above chain (some (first.hashed sha3))).length ≤ 1 := by decide +kernel
  obtain ⟨fjall,memory⟩ :=
    cleaning_exact sha3 [1] chain (some (first.hashed sha3)) "new" 13 listed new_notMem
  exact ⟨(fjall _ (storesChain_stored storesChain_empty.1)).1.mpr few,
    (memory _ (storesChain_stored storesChain_empty.2)).1.mpr few⟩

open TwoProposals in
/-- A lane with two data proposals, and nothing of it in the previous cut: the first one is
left, in both storages. -/
theorem not_cleaned_two_proposals :
    (StoresChain (stored LanesStorage.empty) [1] chain ∧
      ¬CleansUp sha3 (stored LanesStorage.empty) [1] chain none "new" 13) ∧
    StoresChain (stored StorageMemory.LanesStorage.empty) [1] chain ∧
      ¬CleansUp sha3 (stored StorageMemory.LanesStorage.empty) [1] chain none "new" 13 := by
  have fjall := storesChain_stored storesChain_empty.1
  have memory := storesChain_stored storesChain_empty.2
  exact ⟨⟨fjall,not_cleansUp fjall⟩,memory,not_cleansUp memory⟩

end TruthSeeker
