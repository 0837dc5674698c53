import TruthSeeker.Mempool.LaneChanges

namespace TruthSeeker

open Outcome ParentWalk

section
variable {PublicKey BlstSignature : Type} {env : MempoolEnv PublicKey BlstSignature}

namespace LanesStorage

/-- The parent that is recorded with an entry is that of its data proposal, and the size of the
lane grows by the data proposal from one entry to the next. -/
structure Coherent (lanes : LanesStorage) : Prop where
  parent : ∀ laneId hash metadata dp,lanes.getEntryByHash laneId hash=some (metadata,dp) →
    metadata.parentDataProposalHash=dp.parentDataProposalHash
  first : ∀ laneId hash metadata dp,lanes.getEntryByHash laneId hash=some (metadata,dp) →
    metadata.parentDataProposalHash=none → metadata.cumulSize=dp.estimateSize
  size : ∀ laneId hash metadata dp parent parentMetadata,
    lanes.getEntryByHash laneId hash=some (metadata,dp) →
    metadata.parentDataProposalHash=some parent →
    lanes.getMetadataByHash laneId parent=some parentMetadata →
    metadata.cumulSize=parentMetadata.cumulSize+dp.estimateSize

/-- The size recorded with a tip is the size of its entry. -/
def TipsAgree (lanes : LanesStorage) : Prop :=
  ∀ laneId hash size metadata,lanes.lanesTip[laneId]?=some (hash,size) →
    lanes.getMetadataByHash laneId hash=some metadata → metadata.cumulSize=size

/-- What the storage holds already of the children of a data proposal, and of the lanes with
this tip, counts from the size of the new entry. -/
structure Borne (sha3 : Bytes → H256) (lanes : LanesStorage) (laneId : LaneId)
    (metadata : LaneEntryMetadata) (dp : DataProposal) : Prop where
  children : ∀ hash child childDp,lanes.getEntryByHash laneId hash=some (child,childDp) →
    hash≠dp.hashed sha3 → child.parentDataProposalHash=some (dp.hashed sha3) →
    child.cumulSize=metadata.cumulSize+childDp.estimateSize
  own : metadata.parentDataProposalHash=some (dp.hashed sha3) →
    metadata.cumulSize=metadata.cumulSize+dp.estimateSize
  tips : ∀ laneId' size,
    ValidatorPublicKey.display laneId'=ValidatorPublicKey.display laneId →
    lanes.lanesTip[laneId']?=some (dp.hashed sha3,size) → metadata.cumulSize=size

/-- A new entry states the parent of its data proposal, and its size counts from its parent. -/
structure Fits (sha3 : Bytes → H256) (lanes : LanesStorage) (laneId : LaneId)
    (metadata : LaneEntryMetadata) (dp : DataProposal) : Prop
    extends Borne sha3 lanes laneId metadata dp where
  parent : metadata.parentDataProposalHash=dp.parentDataProposalHash
  first : metadata.parentDataProposalHash=none → metadata.cumulSize=dp.estimateSize
  size : ∀ parent parentMetadata,parent≠dp.hashed sha3 →
    metadata.parentDataProposalHash=some parent →
    lanes.getMetadataByHash laneId parent=some parentMetadata →
    metadata.cumulSize=parentMetadata.cumulSize+dp.estimateSize

variable {lanes : LanesStorage} {laneId laneId' : LaneId} {hash h : DataProposalHash}
  {metadata : LaneEntryMetadata} {dp : DataProposal} {sha3 : Bytes → H256}

theorem getMetadataByHash_congr
    (hd : ValidatorPublicKey.display laneId=ValidatorPublicKey.display laneId') :
    lanes.getMetadataByHash laneId h=lanes.getMetadataByHash laneId' h := by
  unfold getMetadataByHash
  rw [key_inj.mpr ⟨hd,rfl⟩]

@[simp] theorem getMetadataByHash_empty : empty.getMetadataByHash laneId h=none := by
  simp [empty,getMetadataByHash]

@[simp] theorem getEntryByHash_empty : empty.getEntryByHash laneId h=none := by
  unfold getEntryByHash
  rw [getMetadataByHash_empty]
  rfl

theorem getEntryByHash_congr
    (hd : ValidatorPublicKey.display laneId=ValidatorPublicKey.display laneId') :
    lanes.getEntryByHash laneId h=lanes.getEntryByHash laneId' h := by
  unfold getEntryByHash getMetadataByHash getDpByHash
  rw [key_inj.mpr ⟨hd,rfl⟩]

theorem getEntryByHash_putNoVerification {entry : LaneEntryMetadata × DataProposal} :
    (lanes.putNoVerification sha3 laneId' entry).getEntryByHash laneId h=
      if key laneId h=key laneId' (entry.2.hashed sha3) then some entry
      else lanes.getEntryByHash laneId h := by
  unfold getEntryByHash
  rw [getMetadataByHash_putNoVerification,getDpByHash_putNoVerification]
  split_ifs <;> rfl

theorem Borne.empty (h : metadata.parentDataProposalHash≠some (dp.hashed sha3)) :
    Borne sha3 empty laneId metadata dp where
  children := by
    intro hash child childDp he
    simp at he
  own := fun same => absurd same h
  tips := by
    intro laneId' size _ ht
    simp [LanesStorage.empty] at ht

/-- An entry without parent is no child of another one. -/
theorem Borne.putNoVerification {first : LaneEntryMetadata} {firstDp : DataProposal}
    (hb : Borne sha3 lanes laneId metadata dp) (hn : first.parentDataProposalHash=none) :
    Borne sha3 (lanes.putNoVerification sha3 laneId' (first,firstDp)) laneId metadata dp where
  children := by
    intro hash child childDp he differs parent
    rw [getEntryByHash_putNoVerification] at he
    split_ifs at he
    · obtain ⟨rfl,_⟩ := Prod.mk.inj (Option.some.inj he)
      cases hn.symm.trans parent
    · exact hb.children _ _ _ he differs parent
  own := hb.own
  tips := hb.tips

theorem Borne.updateLaneTip {size : LaneBytesSize} (hb : Borne sha3 lanes laneId metadata dp)
    (differs : hash≠dp.hashed sha3) :
    Borne sha3 (lanes.updateLaneTip laneId' hash size) laneId metadata dp where
  children := hb.children
  own := hb.own
  tips := by
    intro lane size' same ht
    rw [lanesTip_updateLaneTip] at ht
    split_ifs at ht
    · exact absurd (congrArg Prod.fst (Option.some.inj ht)) differs
    · exact hb.tips _ _ same ht

/-- A fitting entry keeps the storage coherent. -/
theorem Coherent.putNoVerification (hc : lanes.Coherent)
    (hf : Fits sha3 lanes laneId metadata dp) :
    (lanes.putNoVerification sha3 laneId (metadata,dp)).Coherent := by
  constructor
  · intro laneId' h m d he
    rw [getEntryByHash_putNoVerification] at he
    split_ifs at he
    · obtain ⟨rfl,rfl⟩ := Prod.mk.inj (Option.some.inj he)
      exact hf.parent
    · exact hc.parent _ _ _ _ he
  · intro laneId' h m d he hn
    rw [getEntryByHash_putNoVerification] at he
    split_ifs at he
    · obtain ⟨rfl,rfl⟩ := Prod.mk.inj (Option.some.inj he)
      exact hf.first hn
    · exact hc.first _ _ _ _ he hn
  · intro laneId' h m d parent parentMetadata he hp hpm
    rw [getEntryByHash_putNoVerification] at he
    rw [getMetadataByHash_putNoVerification] at hpm
    split_ifs at he with hk
    · obtain ⟨rfl,rfl⟩ := Prod.mk.inj (Option.some.inj he)
      have same := (key_inj.mp hk).1
      split_ifs at hpm with hkp
      · obtain rfl := Option.some.inj hpm
        obtain ⟨_,rfl⟩ := key_inj.mp hkp
        exact hf.own hp
      · rw [getMetadataByHash_congr same] at hpm
        refine hf.size _ _ (fun heq => hkp ?_) hp hpm
        exact key_inj.mpr ⟨same,heq⟩
    · split_ifs at hpm with hkp
      · obtain rfl := Option.some.inj hpm
        obtain ⟨same,rfl⟩ := key_inj.mp hkp
        rw [getEntryByHash_congr same] at he
        exact hf.children _ _ _ he (fun heq => hk (key_inj.mpr ⟨same,heq⟩)) hp
      · exact hc.size _ _ _ _ _ _ he hp hpm

theorem Coherent.updateLaneTip {size : LaneBytesSize} (hc : lanes.Coherent) :
    (lanes.updateLaneTip laneId hash size).Coherent := ⟨hc.parent,hc.first,hc.size⟩

theorem TipsAgree.putNoVerification (ht : lanes.TipsAgree)
    (hb : Borne sha3 lanes laneId metadata dp) :
    (lanes.putNoVerification sha3 laneId (metadata,dp)).TipsAgree := by
  intro laneId' h size m htip hm
  rw [lanesTip_putNoVerification] at htip
  rw [getMetadataByHash_putNoVerification] at hm
  split_ifs at hm with hk
  · obtain rfl := Option.some.inj hm
    obtain ⟨same,rfl⟩ := key_inj.mp hk
    exact hb.tips _ _ same htip
  · exact ht _ _ _ _ htip hm

/-- What the node puts on the tip of a lane counts from there by itself. -/
theorem Appends.fits (ha : Appends env lanes laneId metadata dp) (ht : lanes.TipsAgree)
    (hb : Borne env.sha3 lanes laneId metadata dp) :
    Fits env.sha3 lanes laneId metadata dp := by
  have tip : ∀ parent,metadata.parentDataProposalHash=some parent →
      ∃ size,lanes.lanesTip[laneId]?=some (parent,size) ∧
        metadata.cumulSize=size+dp.estimateSize := by
    intro parent hp
    have onTip := hp.symm.trans (ha.parent.trans ha.onTip)
    have counted := ha.size
    unfold getLaneHashTip at onTip
    unfold getLaneSizeTip at counted
    cases htip : lanes.lanesTip[laneId]? with
    | none => simp [htip] at onTip
    | some tip =>
      obtain ⟨hash,size⟩ := tip
      rw [htip] at onTip counted
      obtain rfl := Option.some.inj onTip
      exact ⟨size,rfl,counted⟩
  refine { hb with parent := ha.parent, first := ?_, size := ?_ }
  · intro hn
    have onTip := hn.symm.trans (ha.parent.trans ha.onTip)
    have counted := ha.size
    unfold getLaneHashTip at onTip
    unfold getLaneSizeTip at counted
    cases htip : lanes.lanesTip[laneId]? with
    | none =>
      rw [htip] at counted
      exact counted.trans (UInt64.zero_add _)
    | some tip => simp [htip] at onTip
  · intro parent parentMetadata _ hp hm
    obtain ⟨size,htip,counted⟩ := tip parent hp
    rw [counted,ht _ _ _ _ htip hm]

theorem TipsAgree.appended (ht : lanes.TipsAgree)
    (hb : Borne sha3 lanes laneId metadata dp) :
    (lanes.appended sha3 laneId metadata dp).TipsAgree := by
  intro laneId' h size m htip hm
  rw [lanesTip_appended] at htip
  by_cases hl : laneId'=laneId
  · subst hl
    rw [if_pos rfl] at htip
    obtain ⟨rfl,rfl⟩ := Prod.mk.inj (Option.some.inj htip)
    rw [getMetadataByHash_appended,if_pos rfl] at hm
    rw [Option.some.inj hm]
  · rw [if_neg hl] at htip
    exact ht.putNoVerification hb _ _ _ _ htip hm

section Signed
variable {votes : List ValidatorDAG}

theorem getMetadataByHash_of_signed {m : LaneEntryMetadata}
    (hm : (lanes.signed laneId' hash votes).getMetadataByHash laneId h=some m) :
    ∃ lem,lanes.getMetadataByHash laneId h=some lem ∧
      m.parentDataProposalHash=lem.parentDataProposalHash ∧ m.cumulSize=lem.cumulSize := by
  rw [getMetadataByHash_signed] at hm
  split_ifs at hm
  · obtain ⟨lem,hl,rfl⟩ := Option.map_eq_some_iff.mp hm
    exact ⟨lem,hl,addSignature_fields hash lem votes⟩
  · exact ⟨m,hm,rfl,rfl⟩

theorem getEntryByHash_of_signed {m : LaneEntryMetadata}
    (hm : (lanes.signed laneId' hash votes).getEntryByHash laneId h=some (m,dp)) :
    ∃ lem,lanes.getEntryByHash laneId h=some (lem,dp) ∧
      m.parentDataProposalHash=lem.parentDataProposalHash ∧ m.cumulSize=lem.cumulSize := by
  obtain ⟨hm,hd⟩ := getEntryByHash_eq_some.mp hm
  rw [getDpByHash_signed] at hd
  obtain ⟨lem,hl,fields⟩ := getMetadataByHash_of_signed hm
  exact ⟨lem,getEntryByHash_eq_some.mpr ⟨hl,hd⟩,fields⟩

theorem Coherent.signed (hc : lanes.Coherent) : (lanes.signed laneId hash votes).Coherent := by
  constructor
  · intro laneId' h m d he
    obtain ⟨lem,hl,parent,_⟩ := getEntryByHash_of_signed he
    rw [parent]
    exact hc.parent _ _ _ _ hl
  · intro laneId' h m d he hn
    obtain ⟨lem,hl,parent,size⟩ := getEntryByHash_of_signed he
    rw [size]
    exact hc.first _ _ _ _ hl (parent.symm.trans hn)
  · intro laneId' h m d p pm he hp hpm
    obtain ⟨lem,hl,parent,size⟩ := getEntryByHash_of_signed he
    obtain ⟨plem,hpl,_,psize⟩ := getMetadataByHash_of_signed hpm
    rw [size,psize]
    exact hc.size _ _ _ _ _ _ hl (parent.symm.trans hp) hpl

theorem TipsAgree.signed (ht : lanes.TipsAgree) :
    (lanes.signed laneId hash votes).TipsAgree := by
  intro laneId' h size m htip hm
  rw [lanesTip_signed] at htip
  obtain ⟨lem,hl,_,same⟩ := getMetadataByHash_of_signed hm
  rw [same]
  exact ht _ _ _ _ htip hl

end Signed

section Popped
variable {tip : DataProposalHash} {entry : LaneEntryMetadata}

theorem getMetadataByHash_of_popped {m : LaneEntryMetadata}
    (hm : (lanes.popped laneId' tip entry).getMetadataByHash laneId h=some m) :
    lanes.getMetadataByHash laneId h=some m := by
  rw [getMetadataByHash_popped] at hm
  split_ifs at hm
  exact hm

theorem getEntryByHash_of_popped {e : LaneEntryMetadata × DataProposal}
    (he : (lanes.popped laneId' tip entry).getEntryByHash laneId h=some e) :
    lanes.getEntryByHash laneId h=some e := by
  obtain ⟨hm,hd⟩ := getEntryByHash_eq_some.mp he
  rw [getDpByHash_popped] at hd
  split_ifs at hd
  exact getEntryByHash_eq_some.mpr ⟨getMetadataByHash_of_popped hm,hd⟩

theorem Coherent.popped (hc : lanes.Coherent) : (lanes.popped laneId tip entry).Coherent where
  parent _ _ _ _ he := hc.parent _ _ _ _ (getEntryByHash_of_popped he)
  first _ _ _ _ he := hc.first _ _ _ _ (getEntryByHash_of_popped he)
  size _ _ _ _ _ _ he hp hm :=
    hc.size _ _ _ _ _ _ (getEntryByHash_of_popped he) hp (getMetadataByHash_of_popped hm)

theorem TipsAgree.popped (ht : lanes.TipsAgree) :
    (lanes.popped laneId tip entry).TipsAgree := by
  intro laneId' h size m htip hm
  rw [lanesTip_popped] at htip
  by_cases hl : laneId'=laneId
  · subst hl
    rw [if_pos rfl] at htip
    obtain ⟨rfl,_⟩ := Prod.mk.inj (Option.some.inj htip)
    rw [getMetadataByHash_popped,if_pos rfl] at hm
    simp at hm
  · rw [if_neg hl] at htip
    exact ht _ _ _ _ htip (getMetadataByHash_of_popped hm)

end Popped

/-- A tip without an entry agrees with any size. -/
theorem TipsAgree.updateLaneTip {size : LaneBytesSize} (ht : lanes.TipsAgree)
    (hn : lanes.getMetadataByHash laneId hash=none) :
    (lanes.updateLaneTip laneId hash size).TipsAgree := by
  intro laneId' h size' m htip hm
  rw [lanesTip_updateLaneTip] at htip
  rw [getMetadataByHash_updateLaneTip] at hm
  by_cases hl : laneId'=laneId
  · subst hl
    rw [if_pos rfl] at htip
    obtain ⟨rfl,_⟩ := Prod.mk.inj (Option.some.inj htip)
    rw [hn] at hm
    simp at hm
  · rw [if_neg hl] at htip
    exact ht _ _ _ _ htip hm

/-- Each data proposal adds to the size of its lane, which does not wrap around. -/
def Grows (lanes : LanesStorage) (laneId : LaneId) : Prop :=
  ∀ hash metadata dp parent parentMetadata,
    lanes.getEntryByHash laneId hash=some (metadata,dp) →
    metadata.parentDataProposalHash=some parent →
    lanes.getMetadataByHash laneId parent=some parentMetadata →
    parentMetadata.cumulSize<parentMetadata.cumulSize+dp.estimateSize

/-- The sizes come down along the parents, so no entry comes again. -/
theorem Coherent.exists_entries (hc : lanes.Coherent) (hw : lanes.WellKept sha3)
    (hg : lanes.Grows laneId) (fromHash toHash : Option DataProposalHash) :
    ∃ w,lanes.getEntriesMetadataBetweenHashes laneId fromHash toHash=some w ∧
      w.keys.Nodup := by
  have ends : ∀ hash,∃ w,Walks (lanes.getMetadataByHash laneId)
      LaneEntryMetadata.parentDataProposalHash (fun h => some h=fromHash) hash w := by
    apply exists_walks fun h => (lanes.getLaneSizeAt laneId h).toNat
    intro k v p v' hk hp hk'
    obtain ⟨dp,hd,_⟩ := hw _ _ _ hk
    have he := getEntryByHash_eq_some.mpr (show _ ∧ lanes.getDpByHash laneId k=some (v,dp).2 from
      ⟨hk,hd⟩)
    have less := hg _ _ _ _ _ he hp hk'
    rw [← hc.size _ _ _ _ _ _ he hp hk'] at less
    unfold getLaneSizeAt
    rw [hk,hk']
    exact UInt64.lt_iff_toNat_lt.mp less
  have bounded : ∀ hash,∃ w,lanes.getEntriesMetadataBetweenHashes laneId fromHash (some hash)=
      some w ∧ w.keys.Nodup := by
    intro hash
    obtain ⟨w,hw⟩ := ends hash
    exact ⟨w,getEntriesMetadataBetweenHashes_eq_some.mpr hw,hw.nodup⟩
  cases ht : toHash.or (lanes.getLaneHashTip laneId) with
  | none =>
    refine ⟨⟨[],none⟩,?_,List.nodup_nil⟩
    unfold getEntriesMetadataBetweenHashes
    rw [ht]
  | some hash =>
    obtain ⟨w,hw,nodup⟩ := bounded hash
    refine ⟨w,?_,nodup⟩
    unfold getEntriesMetadataBetweenHashes at hw ⊢
    rw [ht]
    exact hw

/-- Under one hash, the data proposals of both storages have one parent. -/
def SameParents (lanes lanes' : LanesStorage) (laneId : LaneId) : Prop :=
  ∀ hash dp dp',lanes.getDpByHash laneId hash=some dp → lanes'.getDpByHash laneId hash=some dp' →
    dp.parentDataProposalHash=dp'.parentDataProposalHash

theorem SameParents.refl (lanes : LanesStorage) (laneId : LaneId) :
    SameParents lanes lanes laneId := by
  intro hash dp dp' hd hd'
  rw [Option.some.inj (hd.symm.trans hd')]

theorem SameParents.symm {lanes' : LanesStorage} (h : SameParents lanes lanes' laneId) :
    SameParents lanes' lanes laneId := by
  intro hash dp dp' hd hd'
  exact (h hash dp' dp hd' hd).symm

/-- Two coherent storages that lack no entry between two hashes hold the same entries there. -/
theorem Coherent.same_entries {lanes' : LanesStorage} {sha3' : Bytes → H256}
    (hc : lanes.Coherent) (hc' : lanes'.Coherent) (hw : lanes.WellKept sha3)
    (hw' : lanes'.WellKept sha3') (hp : SameParents lanes lanes' laneId)
    {fromHash : Option DataProposalHash} {w w' : Walk DataProposalHash LaneEntryMetadata}
    (h : lanes.getEntriesMetadataBetweenHashes laneId fromHash (some hash)=some w)
    (h' : lanes'.getEntriesMetadataBetweenHashes laneId fromHash (some hash)=some w')
    (hm : w.missing=none) (hm' : w'.missing=none) :
    w.entries.map (fun e => (e.1,e.2.parentDataProposalHash))=
      w'.entries.map fun e => (e.1,e.2.parentDataProposalHash) := by
  have walks := getEntriesMetadataBetweenHashes_eq_some.mp h
  have walks' := getEntriesMetadataBetweenHashes_eq_some.mp h'
  apply walks.keys_eq walks' hm hm'
  intro k v v' hk hk'
  obtain ⟨dp,hd,_⟩ := hw _ _ _ hk
  obtain ⟨dp',hd',_⟩ := hw' _ _ _ hk'
  have parent := hc.parent _ _ v dp (getEntryByHash_eq_some.mpr ⟨hk,hd⟩)
  have parent' := hc'.parent _ _ v' dp' (getEntryByHash_eq_some.mpr ⟨hk',hd'⟩)
  rw [parent,parent']
  exact hp _ _ _ hd hd'

end LanesStorage

namespace Mempool

open LanesStorage

/-- Every entry that is written agrees with its data proposal and with the entries around it.
Those that the node puts on a tip need only agree with what is stored of their children. -/
def CoherentRun (env : MempoolEnv PublicKey BlstSignature) (events : List Event) : Prop :=
  RunMeets env (Borne env.sha3) (Fits env.sha3) (fun _ _ _ _ => True) (fun _ _ _ => True) events

theorem keeps_coherent (env : MempoolEnv PublicKey BlstSignature) :
    Keeps env (Borne env.sha3) (Fits env.sha3) (fun _ _ _ _ => True) (fun _ _ _ => True)
      fun lanes => lanes.Coherent ∧ lanes.TipsAgree where
  appended _ _ _ _ _ h ha hb :=
    ⟨(h.1.putNoVerification (ha.fits h.2 hb)).updateLaneTip,h.2.appended hb⟩
  replied _ _ _ _ _ h _ hf := ⟨h.1.putNoVerification hf,h.2.putNoVerification hf.toBorne⟩
  signed _ _ _ _ _ h _ := ⟨h.1.signed,h.2.signed⟩
  popped _ _ _ _ _ h _ _ := ⟨h.1.popped,h.2.popped⟩
  tip_popped _ _ _ _ _ _ := trivial
  retipped _ _ _ _ _ h hn _ := ⟨h.1.updateLaneTip,h.2.updateLaneTip hn⟩

theorem coherent_empty : LanesStorage.empty.Coherent ∧ LanesStorage.empty.TipsAgree := by
  refine ⟨⟨?_,?_,?_⟩,?_⟩
  · intro laneId hash metadata dp he
    simp at he
  · intro laneId hash metadata dp he
    simp at he
  · intro laneId hash metadata dp parent parentMetadata he
    simp at he
  · intro laneId hash size metadata _ hm
    simp at hm

/-- Then the entries are coherent, the walks along the parents of a growing lane come to an
end, and two nodes that lack no entry between two hashes hold the same entries there. -/
theorem coherent_run (env : MempoolEnv PublicKey BlstSignature) (events : List Event)
    (h : CoherentRun env events) :
    (run env events).lanes.Coherent ∧
    (∀ laneId fromHash toHash,(run env events).lanes.Grows laneId →
      ∃ w,(run env events).lanes.getEntriesMetadataBetweenHashes laneId fromHash toHash=some w ∧
        w.keys.Nodup) ∧
    ∀ (PublicKey' BlstSignature' : Type) (env' : MempoolEnv PublicKey' BlstSignature') events',
      CoherentRun env' events' → ∀ laneId fromHash toHash w w',
      SameParents (run env events).lanes (run env' events').lanes laneId →
      (run env events).lanes.getEntriesMetadataBetweenHashes laneId fromHash (some toHash)=
        some w →
      (run env' events').lanes.getEntriesMetadataBetweenHashes laneId fromHash (some toHash)=
        some w' →
      w.missing=none → w'.missing=none →
      w.entries.map (fun e => (e.1,e.2.parentDataProposalHash))=
        w'.entries.map fun e => (e.1,e.2.parentDataProposalHash) := by
  have coherent := ((keeps_coherent env).of_run coherent_empty h).1
  have kept := wellKept_run env events
  refine ⟨coherent,?_,?_⟩
  · intro laneId fromHash toHash grows
    exact coherent.exists_entries kept grows fromHash toHash
  · intro PublicKey' BlstSignature' env' events' h' laneId fromHash toHash w w' same hw hw' hm hm'
    have coherent' := ((keeps_coherent env').of_run coherent_empty h').1
    exact coherent.same_entries coherent' kept (wellKept_run env' events') same hw hw' hm hm'

end Mempool

end

namespace Mempool

open LanesStorage

namespace SmallLanes

/-- The entries of the first data proposal in a lane and of the one after it. -/
def parentEntry : LaneEntryMetadata := ⟨none,13,[⟨(firstHash,13),⟨[],[2]⟩⟩]⟩

def childEntry : LaneEntryMetadata :=
  ⟨second.parentDataProposalHash,26,[⟨(secondHash,26),⟨[],[2]⟩⟩]⟩

/-- The operator of lane 2 answers with its first two data proposals. -/
def reply : Event := .netMessage [2] (.syncReply parentEntry first)

def childReply : Event := .netMessage [2] (.syncReply childEntry second)

theorem fits_parentEntry : Fits sha3 LanesStorage.empty [2] parentEntry first where
  toBorne := Borne.empty (by simp [parentEntry])
  parent := rfl
  first := by decide
  size := by simp

theorem fits_childEntry : Fits sha3 (LanesStorage.empty.putNoVerification sha3 [2]
    (parentEntry,first)) [2] childEntry second where
  toBorne := (Borne.empty (by decide +kernel)).putNoVerification rfl
  parent := rfl
  first := by
    intro orphan
    cases orphan
  size := by
    intro parent parentMetadata _ _ hm
    rw [getMetadataByHash_putNoVerification] at hm
    split_ifs at hm
    · obtain rfl := Option.some.inj hm
      decide +kernel
    · simp at hm

end SmallLanes

open SmallLanes in
/-- A parent and its child come in. -/
theorem coherent_run_honest :
    (run env [reply,childReply]).lanes.getMetadataByHash [2] secondHash=some childEntry ∧
    (run env [reply,childReply]).lanes.getMetadataByHash [2] firstHash=some parentEntry ∧
    (run env [reply,childReply]).lanes.Coherent := by
  have replied : CoherentRun env [reply] := RunMeets.concat runMeets_nil fun _ => fits_parentEntry
  have meets : CoherentRun env ([reply]++[childReply]) := replied.concat fun _ => fits_childEntry
  refine ⟨?_,?_,(coherent_run env _ meets).1⟩
  · decide +kernel
  · decide +kernel

namespace SmallLanes

/-- States another parent than its data proposal: the data proposal itself. -/
def forged : LaneEntryMetadata := ⟨some firstHash,13,[⟨(firstHash,13),⟨[],[2]⟩⟩]⟩

def forgedReply : Event := .netMessage [2] (.syncReply forged first)

end SmallLanes

open SmallLanes in
/-- No one compares the parent of a reply with its data proposal. A walk through the entry
never ends. -/
theorem not_coherent_run : ¬(run env [forgedReply]).lanes.Coherent ∧
    (run env [forgedReply]).lanes.getEntriesMetadataBetweenHashes [2] none (some firstHash)=
      none := by
  constructor
  · intro h
    have stored : (run env [forgedReply]).lanes.getEntryByHash [2] firstHash=
        some (forged,first) := by decide +kernel
    exact absurd (h.parent _ _ _ _ stored) (by decide)
  · decide +kernel

end Mempool

end TruthSeeker
