import TruthSeeker.Consensus.VerifyPoda
import TruthSeeker.Framework.ParentChain
import TruthSeeker.Mempool.LaneCoherence
import TruthSeeker.Mempool.StoredVotes

namespace TruthSeeker

open Outcome ParentWalk

def CommittedConsensusProposal.cut (self : CommittedConsensusProposal) : Cut :=
  self.consensusProposal.cut

namespace Mempool

/-- The cut of the previous slot, if there is one, and the proposal of this slot. -/
structure BlockUnderConstruction where
  fromCut : Option Cut
  ccp : CommittedConsensusProposal

/-- A block is built between two proposals of consecutive slots, and for the first slot. -/
def tryCreateBlockUnderConstruction
    (self : Option CommittedConsensusProposal × List BlockUnderConstruction)
    (ccp : CommittedConsensusProposal) :
    Option CommittedConsensusProposal × List BlockUnderConstruction :=
  match self.1 with
  | some last =>
      if ccp.consensusProposal.slot≤last.consensusProposal.slot then self
      else if last.consensusProposal.slot=ccp.consensusProposal.slot-1 then
        (some ccp,self.2++[⟨some last.cut,ccp⟩])
      else (some ccp,self.2)
  | none =>
      if ccp.consensusProposal.slot=1 then (some ccp,self.2++[⟨none,ccp⟩])
      else (some ccp,self.2)

def blocksUnderConstruction (ccps : List CommittedConsensusProposal) :
    List BlockUnderConstruction :=
  (ccps.foldl tryCreateBlockUnderConstruction (none,[])).2

section
variable (self : Mempool)

/-- The data proposals of each lane between the two cuts. What is missing is requested. It is
`none` for a walk that never ends. -/
def getFullData (fromCut : Option Cut) :
    Cut → Option (Outcome (List (LaneId × List DataProposal)) × Mempool)
  | [] => some (.ok [],self)
  | (laneId,toHash,_)::cut =>
      let fromHash := previousHash fromCut laneId
      match self.lanes.getEntriesBetweenHashes laneId fromHash (some toHash) with
      | none => none
      | some ⟨_,some missing⟩ =>
          some (err (s!"Data proposal {missing} not available locally for lane "++
            ValidatorPublicKey.display laneId),
            self.sendSyncRequest laneId fromHash (some missing))
      | some ⟨entries,none⟩ =>
          match getFullData fromCut cut with
          | some (.ok result,next) =>
              some (.ok ((laneId,entries.reverse.map fun e => e.2.2)::result),next)
          | stopped => stopped

def tryGetFullDataForSignedBlock (buc : BlockUnderConstruction) :
    Option (Outcome (List (LaneId × List DataProposal)) × Mempool) :=
  self.getFullData buc.fromCut buc.ccp.cut

/-- The block that is emitted. -/
def buildSignedBlock (buc : BlockUnderConstruction) : Option (Outcome SignedBlock × Mempool) :=
  match self.tryGetFullDataForSignedBlock buc with
  | none => none
  | some (.error e,next) => some (.error e,next)
  | some (.ok blockData,next) =>
      some (.ok ⟨blockData,buc.ccp.consensusProposal,buc.ccp.certificate⟩,next)

end

/-- The last proposal changes as on a commit. -/
theorem tryCreateBlockUnderConstruction_fst {m : Mempool} {bucs : List BlockUnderConstruction}
    {ccp : CommittedConsensusProposal} :
    (tryCreateBlockUnderConstruction (m.lastCcp,bucs) ccp).1=(m.updateLastCcp ccp).lastCcp := by
  unfold tryCreateBlockUnderConstruction updateLastCcp
  cases hl : m.lastCcp with
  | none =>
    dsimp only
    split_ifs <;> rfl
  | some last =>
    dsimp only
    split_ifs
    · exact hl.symm
    · rfl
    · rfl

/-- Slots that follow each other. -/
def Consecutive : Nat → List CommittedConsensusProposal → Prop
  | _,[] => True
  | n,ccp::ccps => ccp.consensusProposal.slot.toNat=n ∧ Consecutive (n+1) ccps

/-- A block for each proposal, from the cut before it. -/
def bucsFrom : Option Cut → List CommittedConsensusProposal → List BlockUnderConstruction
  | _,[] => []
  | fromCut,ccp::ccps => ⟨fromCut,ccp⟩::bucsFrom (some ccp.cut) ccps

theorem foldl_tryCreate {ccps : List CommittedConsensusProposal}
    {last : CommittedConsensusProposal} {bucs : List BlockUnderConstruction}
    (h : Consecutive (last.consensusProposal.slot.toNat+1) ccps) :
    (ccps.foldl tryCreateBlockUnderConstruction (some last,bucs)).2=
      bucs++bucsFrom (some last.cut) ccps := by
  induction ccps generalizing last bucs with
  | nil => exact (List.append_nil bucs).symm
  | cons ccp ccps ih =>
    obtain ⟨slot,tail⟩ := h
    have later : ¬ccp.consensusProposal.slot≤last.consensusProposal.slot := by
      rw [UInt64.le_iff_toNat_le]
      omega
    have next : last.consensusProposal.slot=ccp.consensusProposal.slot-1 := by
      apply UInt64.toNat_inj.mp
      rw [UInt64.toNat_sub_of_le]
      · change _=_-1
        omega
      · rw [UInt64.le_iff_toNat_le]
        change 1≤_
        omega
    have step : tryCreateBlockUnderConstruction (some last,bucs) ccp=
        (some ccp,bucs++[⟨some last.cut,ccp⟩]) := by
      unfold tryCreateBlockUnderConstruction
      dsimp only
      rw [if_neg later,if_pos next]
    rw [← slot] at tail
    rw [List.foldl_cons,step,ih tail,List.append_assoc]
    rfl

/-- From the first slot on, no block is left out. -/
theorem blocksUnderConstruction_eq {ccps : List CommittedConsensusProposal}
    (h : Consecutive 1 ccps) : blocksUnderConstruction ccps=bucsFrom none ccps := by
  unfold blocksUnderConstruction
  cases ccps with
  | nil => rfl
  | cons ccp ccps =>
    obtain ⟨slot,tail⟩ := h
    have first : ccp.consensusProposal.slot=1 := UInt64.toNat_inj.mp slot
    have step : tryCreateBlockUnderConstruction (none,[]) ccp=(some ccp,[⟨none,ccp⟩]) := by
      unfold tryCreateBlockUnderConstruction
      exact if_pos first
    have next : Consecutive (ccp.consensusProposal.slot.toNat+1) ccps := by
      rw [slot]
      exact tail
    rw [List.foldl_cons,step,foldl_tryCreate next]
    rfl

open LanesStorage

section Data
variable {m next : Mempool} {fromCut : Option Cut} {cut : Cut} {laneId : LaneId}

/-- What block construction emits for a lane. -/
def laneProposals (laneId : LaneId) (data : List (LaneId × List DataProposal)) :
    List DataProposal :=
  (data.filter fun d => d.1=laneId).flatMap Prod.snd

/-- The data proposals of a walk that lacks nothing. -/
def Fetches (lanes : LanesStorage) (fromCut : Option Cut) (laneId : LaneId)
    (toHash : DataProposalHash) (dps : List DataProposal) : Prop :=
  ∃ entries,lanes.getEntriesBetweenHashes laneId (previousHash fromCut laneId) (some toHash)=
      some ⟨entries,none⟩ ∧ dps=entries.reverse.map fun e => e.2.2

theorem getFullData_eq_ok {data : List (LaneId × List DataProposal)}
    (h : m.getFullData fromCut cut=some (.ok data,next)) :
    List.Forall₂ (fun entry d => d.1=entry.1 ∧ Fetches m.lanes fromCut entry.1 entry.2.1 d.2)
      cut data := by
  induction cut generalizing data with
  | nil =>
    obtain ⟨hd,_⟩ := Prod.mk.inj (Option.some.inj h)
    obtain rfl := Except.ok.inj hd
    exact .nil
  | cons entry cut ih =>
    obtain ⟨laneId,toHash,rest⟩ := entry
    unfold getFullData at h
    dsimp only at h
    cases hw : m.lanes.getEntriesBetweenHashes laneId (previousHash fromCut laneId)
        (some toHash) with
    | none => simp [hw] at h
    | some w =>
      obtain ⟨entries,missing⟩ := w
      cases missing with
      | some missing => simp [hw,err] at h
      | none =>
        simp only [hw] at h
        cases hr : m.getFullData fromCut cut with
        | none => simp [hr] at h
        | some answer =>
          obtain ⟨result,next'⟩ := answer
          cases result with
          | error e => simp [hr] at h
          | ok tail =>
            simp only [hr] at h
            obtain ⟨hd,rfl⟩ := Prod.mk.inj (Option.some.inj h)
            obtain rfl := Except.ok.inj hd
            exact .cons ⟨rfl,entries,hw,rfl⟩ (ih hr)

theorem laneProposals_cons {d : LaneId × List DataProposal}
    {data : List (LaneId × List DataProposal)} : laneProposals laneId (d::data)=
      (if d.1=laneId then d.2 else [])++laneProposals laneId data := by
  unfold laneProposals
  rw [List.filter_cons]
  by_cases hd : d.1=laneId <;> simp [hd]

theorem laneProposals_of_not_mem {data : List (LaneId × List DataProposal)}
    {R : LaneId × DataProposalHash × LaneBytesSize × PoDA → LaneId × List DataProposal → Prop}
    (h : List.Forall₂ (fun entry d => d.1=entry.1 ∧ R entry d) cut data)
    (hl : laneId∉cut.map Prod.fst) : laneProposals laneId data=[] := by
  induction h with
  | nil => rfl
  | @cons entry d cut data hd _ ih =>
    rw [List.map_cons,List.mem_cons,not_or] at hl
    have other : d.1≠laneId := fun heq => hl.1 (heq.symm.trans hd.1)
    rw [laneProposals_cons,if_neg other,ih hl.2]
    rfl

theorem laneProposals_of_findLane_none {data : List (LaneId × List DataProposal)}
    {R : LaneId × DataProposalHash × LaneBytesSize × PoDA → LaneId × List DataProposal → Prop}
    (h : List.Forall₂ (fun entry d => d.1=entry.1 ∧ R entry d) cut data)
    (hl : findLane cut laneId=none) : laneProposals laneId data=[] := by
  refine laneProposals_of_not_mem h ?_
  intro hm
  obtain ⟨e,he,lane⟩ := List.mem_map.mp hm
  exact absurd lane (by simpa using List.find?_eq_none.mp hl e he)

/-- A lane that is listed once gives what was fetched for it. -/
theorem fetches_laneProposals {data : List (LaneId × List DataProposal)}
    (h : List.Forall₂ (fun entry d => d.1=entry.1 ∧ Fetches m.lanes fromCut entry.1 entry.2.1 d.2)
      cut data) (hn : (cut.map Prod.fst).Nodup)
    {entry : LaneId × DataProposalHash × LaneBytesSize × PoDA}
    (he : findLane cut laneId=some entry) :
    Fetches m.lanes fromCut laneId entry.2.1 (laneProposals laneId data) := by
  induction h with
  | nil => simp [findLane] at he
  | @cons e d cut data hd tail ih =>
    rw [List.map_cons,List.nodup_cons] at hn
    unfold findLane at he ih
    rw [List.find?_cons] at he
    by_cases hl : e.1=laneId
    · rw [decide_eq_true hl] at he
      obtain rfl := Option.some.inj he
      have others : laneProposals laneId data=[] := laneProposals_of_not_mem tail (hl ▸ hn.1)
      rw [laneProposals_cons,if_pos (hd.1.trans hl),others,List.append_nil,← hl]
      exact hd.2
    · rw [decide_eq_false hl] at he
      have other : d.1≠laneId := fun heq => hl (hd.1.symm.trans heq)
      rw [laneProposals_cons,if_neg other]
      exact ih hn.2 he

end Data

section Linked
variable {lanes : LanesStorage} {laneId : LaneId} {fromCut : Option Cut}
  {toHash : DataProposalHash} {dps : List DataProposal} {sha3 : Bytes → H256}

/-- Every entry of the lane states the parent of its data proposal. -/
def ParentsAgree (lanes : LanesStorage) (laneId : LaneId) : Prop :=
  ∀ hash metadata dp,lanes.getEntryByHash laneId hash=some (metadata,dp) →
    metadata.parentDataProposalHash=dp.parentDataProposalHash

/-- The parent of a stored entry. -/
def ParentOf (lanes : LanesStorage) (laneId : LaneId) (hash parent : DataProposalHash) : Prop :=
  ∃ metadata,lanes.getMetadataByHash laneId hash=some metadata ∧
    metadata.parentDataProposalHash=some parent

/-- Data proposals that are linked by their own parents and hashes. -/
def LinkedProposals (sha3 : Bytes → H256) (start : Option DataProposalHash)
    (dps : List DataProposal) (last : Option DataProposalHash) : Prop :=
  Linked (fun dp => dp.hashed sha3) DataProposal.parentDataProposalHash start dps last

theorem Fetches.stored (hw : lanes.WellKept sha3) (hf : Fetches lanes fromCut laneId toHash dps) :
    ∀ dp ∈ dps,lanes.getDpByHash laneId (dp.hashed sha3)=some dp := by
  obtain ⟨entries,he,rfl⟩ := hf
  intro dp hdp
  obtain ⟨e,hmem,rfl⟩ := List.mem_map.mp hdp
  have walks := getEntriesBetweenHashes_eq_some.mp he
  have stored := (walks.lookup_of_mem e (List.mem_reverse.mp hmem)).1
  obtain ⟨hm,hd⟩ := getEntryByHash_eq_some.mp stored
  obtain ⟨dp,hd',hash⟩ := hw _ _ _ hm
  rw [hd] at hd'
  obtain rfl := Option.some.inj hd'
  rw [hash]
  exact hd

/-- The data proposals lead from the previous cut, if the new hash descends from it, and else
from the beginning of the lane. -/
theorem Fetches.linked (hw : lanes.WellKept sha3) (hp : ParentsAgree lanes laneId)
    (hf : Fetches lanes fromCut laneId toHash dps)
    (hd : ∀ last,previousHash fromCut laneId=some last →
      Relation.ReflTransGen (ParentOf lanes laneId) toHash last) :
    LinkedProposals sha3 (previousHash fromCut laneId) dps (some toHash) := by
  obtain ⟨entries,he,rfl⟩ := hf
  have walks := getEntriesBetweenHashes_eq_some.mp he
  have chain : Linked Prod.fst
      (fun e : DataProposalHash × LaneEntryMetadata × DataProposal =>
        e.2.1.parentDataProposalHash)
      (previousHash fromCut laneId) entries.reverse (some toHash) := by
    cases hl : previousHash fromCut laneId with
    | none =>
      rw [hl] at walks
      obtain ⟨start,linked,stops⟩ := walks.linked rfl
      cases start with
      | none => exact linked
      | some p => exact absurd (stops p rfl) (by simp)
    | some last =>
      rw [hl] at walks
      refine walks.linked_of_reaches rfl (by simp) ?_ (hd last hl)
      intro k p v hR hk
      obtain ⟨metadata,hm,hpar⟩ := hR
      have stored := (getEntryByHash_eq_some.mp hk).1
      rw [hm] at stored
      rw [← Option.some.inj stored]
      exact hpar
  refine chain.map ?_
  intro e hmem
  have stored := (walks.lookup_of_mem e (List.mem_reverse.mp hmem)).1
  obtain ⟨hm,hdp⟩ := getEntryByHash_eq_some.mp stored
  obtain ⟨dp,hd',hash⟩ := hw _ _ _ hm
  rw [hdp] at hd'
  rw [Option.some.inj hd']
  refine ⟨hash,?_⟩
  rw [← Option.some.inj hd']
  exact (hp _ _ _ stored).symm

end Linked

/-- A committed proposal, with the round state of a follower that has verified its cut, what the
mempool had reacted to when it built the block, and the block. -/
structure Commit where
  ccp : CommittedConsensusProposal
  follower : BFTRoundState
  events : List Event
  block : SignedBlock

section Commits
variable {PublicKey BlstSignature : Type} (env : MempoolEnv PublicKey BlstSignature)

/-- Each cut has been verified against the one before it. -/
def Verified (blst : Blst PublicKey BlstSignature) : Option Cut → List Commit → Prop
  | _,[] => True
  | previous,c::commits =>
      (c.follower.parentCut=previous.getD [] ∧
        c.follower.verifyPoda blst c.ccp.consensusProposal=.ok ()) ∧
      Verified blst (some c.ccp.cut) commits

/-- Each block is built for its proposal. -/
def Built (bucs : List BlockUnderConstruction) (commits : List Commit) : Prop :=
  List.Forall₂
    (fun buc c => ∃ next,(run env c.events).buildSignedBlock buc=some (.ok c.block,next))
    bucs commits

/-- The new data proposal of a lane descends from the previous one along the entries that are
stored when the block is built. -/
def Descends : Option Cut → List Commit → Prop
  | _,[] => True
  | previous,c::commits =>
      (∀ entry ∈ c.ccp.cut,∀ last,previousHash previous entry.1=some last →
        Relation.ReflTransGen (ParentOf (run env c.events).lanes entry.1) entry.2.1 last) ∧
      Descends (some c.ccp.cut) commits

/-- No cut lists a lane twice, each new data proposal descends from the previous one, and the
entries state the parents of their data proposals, which depend on the hashes only. -/
structure ChainedRun (commits : List Commit) : Prop where
  once : ∀ c ∈ commits,(c.ccp.cut.map Prod.fst).Nodup
  descends : Descends env none commits
  parents : ∀ c ∈ commits,∀ laneId,ParentsAgree (run env c.events).lanes laneId
  same : ∀ c ∈ commits,∀ c' ∈ commits,∀ laneId,
    SameParents (run env c.events).lanes (run env c'.events).lanes laneId

/-- What the blocks deliver of a lane, in order. -/
def delivered (laneId : LaneId) (commits : List Commit) : List DataProposal :=
  commits.flatMap fun c => laneProposals laneId c.block.dataProposals

def lastCut : Option Cut → List Commit → Option Cut
  | previous,[] => previous
  | _,c::commits => lastCut (some c.ccp.cut) commits

variable {env} {laneId : LaneId} {previous : Option Cut} {c : Commit} {commits : List Commit}

theorem fetched_of_built {next : Mempool}
    (hb : (run env c.events).buildSignedBlock ⟨previous,c.ccp⟩=some (.ok c.block,next)) :
    List.Forall₂ (fun entry d => d.1=entry.1 ∧
        Fetches (run env c.events).lanes previous entry.1 entry.2.1 d.2)
      c.ccp.cut c.block.dataProposals := by
  unfold buildSignedBlock tryGetFullDataForSignedBlock at hb
  cases hd : (run env c.events).getFullData previous c.ccp.cut with
  | none => simp [hd] at hb
  | some answer =>
    obtain ⟨result,next'⟩ := answer
    cases result with
    | error e => simp [hd] at hb
    | ok data =>
      simp only [hd] at hb
      obtain ⟨hblock,_⟩ := Prod.mk.inj (Option.some.inj hb)
      rw [← Except.ok.inj hblock]
      exact getFullData_eq_ok hd

/-- A block leads each lane from the previous cut to its own. -/
theorem linked_block {blst : Blst PublicKey BlstSignature} {next : Mempool}
    (hb : (run env c.events).buildSignedBlock ⟨previous,c.ccp⟩=some (.ok c.block,next))
    (hn : (c.ccp.cut.map Prod.fst).Nodup)
    (hp : ParentsAgree (run env c.events).lanes laneId)
    (hd : ∀ entry ∈ c.ccp.cut,∀ last,previousHash previous entry.1=some last →
      Relation.ReflTransGen (ParentOf (run env c.events).lanes entry.1) entry.2.1 last)
    (parent : c.follower.parentCut=previous.getD [])
    (verified : c.follower.verifyPoda blst c.ccp.consensusProposal=.ok ()) :
    LinkedProposals env.sha3 (previousHash previous laneId)
      (laneProposals laneId c.block.dataProposals) (previousHash (some c.ccp.cut) laneId) := by
  have fetched := fetched_of_built hb
  cases hl : findLane c.ccp.cut laneId with
  | none =>
    have unlisted : ∀ e ∈ c.ccp.cut,e.1≠laneId := by
      intro e he
      simpa using List.find?_eq_none.mp hl e he
    -- The lane is in no earlier cut either, or the followers would miss it in this one.
    have new : previousHash previous laneId=none := by
      cases previous with
      | none => rfl
      | some cut =>
        cases hl' : findLane cut laneId with
        | none => simp [previousHash,hl']
        | some last =>
          have kept := (BFTRoundState.verifyPoda_eq_ok.mp verified).1 last
            (by rw [parent]; exact List.mem_of_find?_eq_some hl')
          obtain ⟨e,he,lane⟩ := kept
          have same : last.1=laneId := by simpa using List.find?_some hl'
          exact absurd (lane.trans same) (unlisted e he)
    rw [laneProposals_of_findLane_none fetched hl,new]
    simp [LinkedProposals,Linked,previousHash,hl]
  | some entry =>
    have lane : entry.1=laneId := by simpa using List.find?_some hl
    have new : previousHash (some c.ccp.cut) laneId=some entry.2.1 := by
      simp [previousHash,hl]
    rw [new]
    refine (fetches_laneProposals fetched hn hl).linked (wellKept_run env c.events) hp ?_
    rw [← lane]
    exact hd entry (List.mem_of_find?_eq_some hl)

/-- Block by block, a lane is led from cut to cut. -/
theorem linked_delivered {blst : Blst PublicKey BlstSignature}
    (hb : Built env (bucsFrom previous (commits.map Commit.ccp)) commits)
    (hv : Verified blst previous commits) (hd : Descends env previous commits)
    (hn : ∀ c ∈ commits,(c.ccp.cut.map Prod.fst).Nodup)
    (hp : ∀ c ∈ commits,ParentsAgree (run env c.events).lanes laneId) :
    LinkedProposals env.sha3 (previousHash previous laneId) (delivered laneId commits)
      (previousHash (lastCut previous commits) laneId) := by
  induction commits generalizing previous with
  | nil => rfl
  | cons c commits ih =>
    obtain ⟨next,built⟩ := (List.forall₂_cons.mp hb).1
    have head := linked_block built (hn c List.mem_cons_self) (hp c List.mem_cons_self) hd.1
      hv.1.1 hv.1.2
    have tail := ih (List.forall₂_cons.mp hb).2 hv.2 hd.2
      (fun c hc => hn c (List.mem_cons_of_mem _ hc))
      (fun c hc => hp c (List.mem_cons_of_mem _ hc))
    exact Linked.append head tail

theorem stored_of_mem_delivered
    (hb : Built env (bucsFrom previous (commits.map Commit.ccp)) commits)
    (hn : ∀ c ∈ commits,(c.ccp.cut.map Prod.fst).Nodup) :
    ∀ dp ∈ delivered laneId commits,∃ c ∈ commits,
      (run env c.events).lanes.getDpByHash laneId (dp.hashed env.sha3)=some dp := by
  induction commits generalizing previous with
  | nil => simp [delivered]
  | cons c commits ih =>
    intro dp hdp
    obtain ⟨next,built⟩ := (List.forall₂_cons.mp hb).1
    have fetched := fetched_of_built built
    obtain here|later := List.mem_append.mp hdp
    · refine ⟨c,List.mem_cons_self,?_⟩
      cases hl : findLane c.ccp.cut laneId with
      | none =>
        have here : dp∈laneProposals laneId c.block.dataProposals := here
        rw [laneProposals_of_findLane_none fetched hl] at here
        simp at here
      | some entry =>
        exact (fetches_laneProposals fetched (hn c List.mem_cons_self) hl).stored
          (wellKept_run env c.events) dp here
    · obtain ⟨c',hc,stored⟩ := ih (List.forall₂_cons.mp hb).2
        (fun c hc => hn c (List.mem_cons_of_mem _ hc)) dp later
      exact ⟨c',List.mem_cons_of_mem _ hc,stored⟩

/-- The data proposals are linked from the beginning of a lane to the given hash, and none
comes again. -/
structure DeliversLane (sha3 : Bytes → H256) (dps : List DataProposal)
    (last : Option DataProposalHash) : Prop where
  linked : LinkedProposals sha3 none dps last
  nodup : (dps.map fun dp => dp.hashed sha3).Nodup

/-- From the first slot on, the blocks of such a run deliver each lane once and in order, up to
the hash in the last cut. -/
theorem deliversLane_run (env : MempoolEnv PublicKey BlstSignature)
    (blst : Blst PublicKey BlstSignature) (commits : List Commit)
    (slots : Consecutive 1 (commits.map Commit.ccp)) (verified : Verified blst none commits)
    (built : Built env (blocksUnderConstruction (commits.map Commit.ccp)) commits)
    (h : ChainedRun env commits) (laneId : LaneId) :
    DeliversLane env.sha3 (delivered laneId commits)
      (previousHash (lastCut none commits) laneId) := by
  rw [blocksUnderConstruction_eq slots] at built
  have linked := linked_delivered built verified h.descends h.once
    (fun c hc => h.parents c hc laneId)
  refine ⟨linked,Linked.nodup linked ?_⟩
  intro dp hdp dp' hdp' same
  obtain ⟨c,hc,stored⟩ := stored_of_mem_delivered built h.once dp hdp
  obtain ⟨c',hc',stored'⟩ := stored_of_mem_delivered built h.once dp' hdp'
  rw [← same] at stored'
  exact h.same c hc c' hc' laneId _ _ _ stored stored'

end Commits

namespace SmallLanes

/-- The first slot, with the lane of the node so many times in the cut. -/
def commit (n : Nat) : Commit where
  ccp := ⟨withLeader,⟨1,"",List.replicate n (car [1]),[],0⟩,Inhabited.default⟩
  follower := { BFTRoundState.default with staking := withLeader }
  events := stored
  block := ⟨List.replicate n ([1],[first]),⟨1,"",List.replicate n (car [1]),[],0⟩,
    Inhabited.default⟩

theorem buildSignedBlock_commit (n : Nat) :
    (run voters stored).buildSignedBlock ⟨none,(commit n).ccp⟩=
      some (.ok (commit n).block,run voters stored) := by
  have fetched : (run voters stored).lanes.getEntriesBetweenHashes [1] none (some firstHash)=
      some ⟨[(firstHash,⟨none,13,[voteOf 1]⟩,first)],none⟩ := by decide +kernel
  have data : ∀ n,(run voters stored).getFullData none (List.replicate n (car [1]))=
      some (.ok (List.replicate n ([1],[first])),run voters stored) := by
    intro n
    induction n with
    | zero => rfl
    | succ n ih =>
      rw [List.replicate_succ,List.replicate_succ]
      unfold car at ih ⊢
      simp [getFullData,previousHash,fetched,ih]
  have answer : (run voters stored).tryGetFullDataForSignedBlock ⟨none,(commit n).ccp⟩=
      some (.ok (List.replicate n ([1],[first])),run voters stored) := data n
  unfold buildSignedBlock
  rw [answer]
  rfl

/-- The second slot, with the second data proposal. -/
def nextCommit : Commit where
  ccp := ⟨withLeader,⟨2,"",[secondCar],[],0⟩,Inhabited.default⟩
  follower := { BFTRoundState.default with staking := withLeader,parentCut := [car [1]] }
  events := extended
  block := ⟨[([1],[second])],⟨2,"",[secondCar],[],0⟩,Inhabited.default⟩

theorem verifyPoda_nextCommit : nextCommit.follower.verifyPoda voters.crypto.toBlst
    nextCommit.ccp.consensusProposal=.ok () := by decide +kernel

theorem buildSignedBlock_nextCommit :
    (run voters extended).buildSignedBlock ⟨some [car [1]],nextCommit.ccp⟩=
      some (.ok nextCommit.block,run voters extended) := by
  have previous : previousHash (some [car [1]]) [1]=some firstHash := rfl
  have fetched : (run voters extended).lanes.getEntriesBetweenHashes [1] (some firstHash)
      (some secondHash)=some ⟨[(secondHash,⟨some firstHash,26,
        [⟨(secondHash,26),⟨secondBytes,[1]⟩⟩]⟩,second)],none⟩ := by decide +kernel
  have answer : (run voters extended).tryGetFullDataForSignedBlock
      ⟨some [car [1]],nextCommit.ccp⟩=some (.ok [([1],[second])],run voters extended) := by
    change (run voters extended).getFullData (some [car [1]]) [secondCar]=_
    unfold secondCar
    simp only [getFullData,previous,fetched]
    rfl
  unfold buildSignedBlock
  rw [answer]
  rfl

/-- The lane once it has its first data proposal. -/
def firstLane : LanesStorage := LanesStorage.empty.appended sha3 [1] ⟨none,13,[voteOf 1]⟩ first

theorem lanes_preparing : (run voters preparing).lanes=firstLane := by
  rw [preparing,run_concat,lanes_newDpTimer]
  rfl

theorem coherentRun_stored : CoherentRun voters stored := by
  have start : CoherentRun voters [.newDpTimer first.txs] := RunMeets.concat runMeets_nil trivial
  refine RunMeets.concat start ?_
  intro dp metadata hd ha
  obtain rfl := Option.some.inj hd
  have empty : (run voters [.newDpTimer first.txs]).lanes=LanesStorage.empty := rfl
  rw [empty] at ha ⊢
  have noTip : LanesStorage.empty.getLaneHashTip (ownLaneId voters)=none := rfl
  refine Borne.empty ?_
  rw [ha.parent,ha.onTip,noTip]
  simp

theorem coherentRun_extended : CoherentRun voters extended := by
  have start : CoherentRun voters preparing := coherentRun_stored.concat trivial
  refine RunMeets.concat start ?_
  intro dp metadata hd ha
  have prepared : (run voters preparing).ownDataProposalInPreparation.head?=some second := by
    decide +kernel
  obtain rfl := Option.some.inj (prepared.symm.trans hd)
  have apart : firstHash≠secondHash := by decide +kernel
  have foreign : metadata.parentDataProposalHash≠some (second.hashed sha3) := by
    rw [ha.parent]
    decide +kernel
  rw [lanes_preparing]
  exact ((Borne.empty foreign).putNoVerification rfl).updateLaneTip apart

/-- The second data proposal comes after the first one, which stays. -/
theorem kept_extended :
    (run voters extended).lanes.getDpByHash [1] firstHash=some first ∧
    ((run voters extended).lanes.getMetadataByHash [1] secondHash).map
      LaneEntryMetadata.parentDataProposalHash=some (some firstHash) := by
  decide +kernel

theorem sameParents_extended (laneId : LaneId) :
    SameParents (run voters stored).lanes (run voters extended).lanes laneId := by
  intro hash dp dp' hd hd'
  have lane : (run voters stored).lanes=firstLane := rfl
  rw [lane,firstLane,getDpByHash_appended] at hd
  split_ifs at hd with here
  · obtain rfl := Option.some.inj hd
    have same : (run voters extended).lanes.getDpByHash laneId hash=
        (run voters extended).lanes.getDpByHash [1] firstHash := by
      unfold getDpByHash
      rw [here]
      rfl
    rw [same,kept_extended.1] at hd'
    obtain rfl := Option.some.inj hd'
    rfl
  · simp [getDpByHash,LanesStorage.empty] at hd

theorem chainedRun_commits : ChainedRun voters [commit 1,nextCommit] where
  once := by simp [commit,nextCommit,CommittedConsensusProposal.cut]
  descends := by
    refine ⟨?_,?_,trivial⟩
    · intro entry _ last hl
      simp [previousHash] at hl
    · intro entry he last hl
      obtain rfl := List.mem_singleton.mp he
      have previous : previousHash (some [car [1]]) [1]=some firstHash := rfl
      obtain rfl := Option.some.inj (previous.symm.trans hl)
      obtain ⟨metadata,stored,parent⟩ := Option.map_eq_some_iff.mp kept_extended.2
      exact .single ⟨metadata,stored,parent⟩
  parents := by
    intro c hc laneId hash metadata dp he
    obtain rfl|rfl : c=commit 1 ∨ c=nextCommit := by simpa using hc
    · exact ((keeps_coherent voters).of_run coherent_empty coherentRun_stored).1.parent _ _ _ _ he
    · exact ((keeps_coherent voters).of_run coherent_empty coherentRun_extended).1.parent _ _ _ _ he
  same := by
    intro c hc c' hc' laneId
    obtain rfl|rfl : c=commit 1 ∨ c=nextCommit := by simpa using hc
    · obtain rfl|rfl : c'=commit 1 ∨ c'=nextCommit := by simpa using hc'
      · exact SameParents.refl _ laneId
      · exact sameParents_extended laneId
    · obtain rfl|rfl : c'=commit 1 ∨ c'=nextCommit := by simpa using hc'
      · exact (sameParents_extended laneId).symm
      · exact SameParents.refl _ laneId

end SmallLanes

open SmallLanes in
/-- Two slots, each with a data proposal of the lane. -/
theorem deliversLane_run_twice : DeliversLane sha3 [first,second] (some secondHash) := by
  have dps : delivered [1] [commit 1,nextCommit]=[first,second] := rfl
  have last : previousHash (lastCut none [commit 1,nextCommit]) [1]=some secondHash := rfl
  have slots : Consecutive 1 ([commit 1,nextCommit].map Commit.ccp) := ⟨rfl,rfl,trivial⟩
  have verified : Verified voters.crypto.toBlst none [commit 1,nextCommit] :=
    ⟨⟨rfl,rfl⟩,⟨rfl,verifyPoda_nextCommit⟩,trivial⟩
  have built : Built voters (blocksUnderConstruction ([commit 1,nextCommit].map Commit.ccp))
      [commit 1,nextCommit] :=
    .cons ⟨_,buildSignedBlock_commit 1⟩ (.cons ⟨_,buildSignedBlock_nextCommit⟩ .nil)
  rw [← dps,← last]
  exact deliversLane_run voters _ _ slots verified built chainedRun_commits [1]

open SmallLanes in
/-- The leader lists the lane twice. The followers verify each of the two entries by itself, and
the block delivers the data proposal twice. -/
theorem not_deliversLane_run :
    Consecutive 1 [(commit 2).ccp] ∧ Verified voters.crypto.toBlst none [commit 2] ∧
    Built voters (blocksUnderConstruction [(commit 2).ccp]) [commit 2] ∧
    ¬DeliversLane sha3 (delivered [1] [commit 2]) (previousHash (lastCut none [commit 2]) [1]) := by
  refine ⟨⟨rfl,trivial⟩,⟨⟨rfl,rfl⟩,trivial⟩,.cons ⟨_,buildSignedBlock_commit 2⟩ .nil,?_⟩
  intro h
  have second : first.parentDataProposalHash=some firstHash := h.linked.2.1
  exact absurd second (by decide)

end Mempool

end TruthSeeker
