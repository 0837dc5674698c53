import Mathlib.Data.List.Induction
import TruthSeeker.Consensus.SigningLog
import TruthSeeker.Mempool.State

namespace TruthSeeker

open Outcome

section
variable {PublicKey BlstSignature : Type} {env : MempoolEnv PublicKey BlstSignature}

namespace LanesStorage

section Changes
variable (self : LanesStorage)

/-- A new entry that becomes the tip of its lane. -/
def appended (sha3 : Bytes → H256) (laneId : LaneId) (metadata : LaneEntryMetadata)
    (dp : DataProposal) : LanesStorage :=
  (self.putNoVerification sha3 laneId (metadata,dp)).updateLaneTip laneId (dp.hashed sha3)
    metadata.cumulSize

/-- The votes that add to an entry. -/
def signed (laneId : LaneId) (hash : DataProposalHash) (votes : List ValidatorDAG) :
    LanesStorage := (self.addSignatures laneId hash votes).2

/-- The entry of the tip is gone, and the tip stays. -/
def popped (laneId : LaneId) (tip : DataProposalHash) (entry : LaneEntryMetadata) :
    LanesStorage :=
  { self with
    lanesTip := self.lanesTip.insert laneId (tip,entry.cumulSize)
    byHashMetadata := self.byHashMetadata.erase (key laneId tip)
    byHashData := self.byHashData.erase (key laneId tip) }

/-- Every entry has its data proposal, and is stored under the hash of it. -/
def WellKept (sha3 : Bytes → H256) : Prop :=
  ∀ laneId hash metadata,self.getMetadataByHash laneId hash=some metadata →
    ∃ dp,self.getDpByHash laneId hash=some dp ∧ dp.hashed sha3=hash

end Changes

/-- The node puts a new data proposal on the tip of a lane, with its own signature. -/
structure Appends (env : MempoolEnv PublicKey BlstSignature) (lanes : LanesStorage)
    (laneId : LaneId) (metadata : LaneEntryMetadata) (dp : DataProposal) : Prop where
  absent : lanes.contains laneId (dp.hashed env.sha3)=false
  onTip : dp.parentDataProposalHash=lanes.getLaneHashTip laneId
  parent : metadata.parentDataProposalHash=dp.parentDataProposalHash
  size : metadata.cumulSize=(lanes.getLaneSizeTip laneId).getD 0+dp.estimateSize
  signature : ∃ signature,env.crypto.sign (dp.hashed env.sha3,metadata.cumulSize)=.ok signature ∧
    metadata.signatures=[signature]

variable {self : LanesStorage} {laneId laneId' : LaneId} {hash h : DataProposalHash}
  {metadata : LaneEntryMetadata} {dp : DataProposal} {votes : List ValidatorDAG}

theorem put_cases (self : LanesStorage) (sha3 : Bytes → H256)
    (entry : LaneEntryMetadata × DataProposal) :
    (∃ e,self.put sha3 laneId entry=(.error e,self)) ∨
      (self.contains laneId (entry.2.hashed sha3)=false ∧
        entry.1.parentDataProposalHash=self.getLaneHashTip laneId ∧
        self.put sha3 laneId entry=(.ok (),self.appended sha3 laneId entry.1 entry.2)) := by
  unfold put
  dsimp only
  by_cases hc : self.contains laneId (entry.2.hashed sha3)=true
  · rw [if_pos hc]
    exact Or.inl ⟨_,rfl⟩
  · rw [if_neg hc]
    cases hp : self.canBePutOnTop laneId entry.1.parentDataProposalHash with
    | no => exact Or.inl ⟨_,rfl⟩
    | fork => exact Or.inl ⟨_,rfl⟩
    | yes =>
      refine Or.inr ⟨Bool.eq_false_of_not_eq_true hc,?_,rfl⟩
      unfold canBePutOnTop at hp
      by_contra hn
      rw [if_neg hn] at hp
      cases hd : entry.1.parentDataProposalHash with
      | none => simp [hd] at hp
      | some parent =>
        simp only [hd] at hp
        split_ifs at hp

/-- A data proposal that cannot be stored changes nothing. -/
theorem storeDataProposal_cases (env : MempoolEnv PublicKey BlstSignature)
    (self : LanesStorage) (laneId : LaneId) (dp : DataProposal) :
    (∃ e,self.storeDataProposal env.sha3 env.crypto laneId dp=(.error e,self)) ∨
      ∃ metadata,Appends env self laneId metadata dp ∧
        self.storeDataProposal env.sha3 env.crypto laneId dp=
          (.ok (dp.hashed env.sha3,metadata.cumulSize),
            self.appended env.sha3 laneId metadata dp) := by
  unfold storeDataProposal
  dsimp only
  cases hs : env.crypto.sign
      (dp.hashed env.sha3,(self.getLaneSizeTip laneId).getD 0+dp.estimateSize) with
  | error e => exact Or.inl ⟨e,rfl⟩
  | ok signature =>
    dsimp only
    generalize hm : LaneEntryMetadata.mk dp.parentDataProposalHash
      ((self.getLaneSizeTip laneId).getD 0+dp.estimateSize) [signature]=metadata
    obtain ⟨e,he⟩|⟨absent,onTip,he⟩ := self.put_cases env.sha3 (metadata,dp)
    · rw [he]
      exact Or.inl ⟨e,rfl⟩
    · rw [he]
      refine Or.inr ⟨metadata,?_,?_⟩
      · subst hm
        exact ⟨absent,onTip,rfl,rfl,signature,hs,rfl⟩
      · subst hm
        rfl

theorem signed_of_absent (h : self.getMetadataByHash laneId hash=none) :
    self.signed laneId hash votes=self := by
  unfold signed addSignatures
  rw [h]

theorem signed_of_stored (h : self.getMetadataByHash laneId hash=some metadata) :
    self.signed laneId hash votes=
      { self with
        byHashMetadata := self.byHashMetadata.insert (key laneId hash)
          (votes.foldl (addSignature hash) metadata) } := by
  unfold signed addSignatures
  rw [h]

theorem signed_nil : self.signed laneId hash []=self := by
  cases hm : self.getMetadataByHash laneId hash with
  | none => exact signed_of_absent hm
  | some metadata =>
    have same : self.byHashMetadata.insert (key laneId hash) metadata=self.byHashMetadata := by
      apply Std.ExtTreeMap.ext_getElem?
      intro k
      rw [Std.ExtTreeMap.getElem?_insert]
      simp only [compare_key]
      split_ifs with hk
      · rw [hk]
        exact hm.symm
      · rfl
    rw [signed_of_stored hm]
    exact congrArg (fun byHashMetadata => { self with byHashMetadata := byHashMetadata }) same

theorem addSignature_fields (hash : DataProposalHash) (lem : LaneEntryMetadata)
    (votes : List ValidatorDAG) :
    (votes.foldl (addSignature hash) lem).parentDataProposalHash=lem.parentDataProposalHash ∧
      (votes.foldl (addSignature hash) lem).cumulSize=lem.cumulSize := by
  induction votes generalizing lem with
  | nil => exact ⟨rfl,rfl⟩
  | cons vote votes ih =>
    have tail := ih (addSignature hash lem vote)
    have head : (addSignature hash lem vote).parentDataProposalHash=
        lem.parentDataProposalHash ∧ (addSignature hash lem vote).cumulSize=lem.cumulSize := by
      unfold addSignature
      split_ifs <;> exact ⟨rfl,rfl⟩
    exact ⟨tail.1.trans head.1,tail.2.trans head.2⟩

/-- Votes change the signatures of their entry only. -/
theorem getMetadataByHash_signed :
    (self.signed laneId' hash votes).getMetadataByHash laneId h=
      if key laneId h=key laneId' hash then
        (self.getMetadataByHash laneId h).map fun lem => votes.foldl (addSignature hash) lem
      else self.getMetadataByHash laneId h := by
  have same : key laneId h=key laneId' hash →
      self.getMetadataByHash laneId h=self.getMetadataByHash laneId' hash := by
    intro hk
    unfold getMetadataByHash
    rw [hk]
  cases hm : self.getMetadataByHash laneId' hash with
  | none =>
    rw [signed_of_absent hm]
    split_ifs with hk
    · rw [same hk,hm]
      rfl
    · rfl
  | some metadata =>
    rw [signed_of_stored hm]
    unfold getMetadataByHash
    dsimp only
    rw [Std.ExtTreeMap.getElem?_insert]
    simp only [compare_key]
    split_ifs with hk
    · have here := (same hk).trans hm
      unfold getMetadataByHash at here
      rw [here]
      rfl
    · rfl

@[simp] theorem getDpByHash_signed :
    (self.signed laneId' hash votes).getDpByHash laneId h=self.getDpByHash laneId h := by
  cases hm : self.getMetadataByHash laneId' hash with
  | none => rw [signed_of_absent hm]
  | some metadata =>
    rw [signed_of_stored hm]
    rfl

@[simp] theorem lanesTip_signed : (self.signed laneId' hash votes).lanesTip=self.lanesTip := by
  cases hm : self.getMetadataByHash laneId' hash with
  | none => rw [signed_of_absent hm]
  | some metadata => rw [signed_of_stored hm]

theorem signed_append {votes' : List ValidatorDAG} :
    (self.signed laneId hash votes).signed laneId hash votes'=
      self.signed laneId hash (votes++votes') := by
  cases hm : self.getMetadataByHash laneId hash with
  | none => rw [signed_of_absent hm,signed_of_absent hm,signed_of_absent hm]
  | some metadata =>
    have next : (self.signed laneId hash votes).getMetadataByHash laneId hash=
        some (votes.foldl (addSignature hash) metadata) := by
      rw [getMetadataByHash_signed,if_pos rfl,hm]
      rfl
    rw [signed_of_stored next,signed_of_stored hm,signed_of_stored hm,List.foldl_append]
    congr 1
    apply Std.ExtTreeMap.ext_getElem?
    intro k
    simp only [Std.ExtTreeMap.getElem?_insert,compare_key]
    split_ifs <;> rfl

theorem getMetadataByHash_popped {entry : LaneEntryMetadata} {tip : DataProposalHash} :
    (self.popped laneId' tip entry).getMetadataByHash laneId h=
      if key laneId h=key laneId' tip then none else self.getMetadataByHash laneId h := by
  unfold popped getMetadataByHash
  rw [Std.ExtTreeMap.getElem?_erase]
  simp only [compare_key]

theorem getDpByHash_popped {entry : LaneEntryMetadata} {tip : DataProposalHash} :
    (self.popped laneId' tip entry).getDpByHash laneId h=
      if key laneId h=key laneId' tip then none else self.getDpByHash laneId h := by
  unfold popped getDpByHash
  rw [Std.ExtTreeMap.getElem?_erase]
  simp only [compare_key]

theorem lanesTip_popped {entry : LaneEntryMetadata} {tip : DataProposalHash} :
    (self.popped laneId' tip entry).lanesTip[laneId]?=
      if laneId=laneId' then some (tip,entry.cumulSize) else self.lanesTip[laneId]? :=
  lanesTip_updateLaneTip

theorem getMetadataByHash_appended {sha3 : Bytes → H256} :
    (self.appended sha3 laneId' metadata dp).getMetadataByHash laneId h=
      if key laneId h=key laneId' (dp.hashed sha3) then some metadata
      else self.getMetadataByHash laneId h := getMetadataByHash_putNoVerification

theorem getDpByHash_appended {sha3 : Bytes → H256} :
    (self.appended sha3 laneId' metadata dp).getDpByHash laneId h=
      if key laneId h=key laneId' (dp.hashed sha3) then some dp
      else self.getDpByHash laneId h := getDpByHash_putNoVerification

theorem lanesTip_appended {sha3 : Bytes → H256} :
    (self.appended sha3 laneId' metadata dp).lanesTip[laneId]?=
      if laneId=laneId' then some (dp.hashed sha3,metadata.cumulSize)
      else self.lanesTip[laneId]? := lanesTip_updateLaneTip

section WellKept
variable {sha3 : Bytes → H256}

theorem wellKept_empty : empty.WellKept sha3 := by
  intro laneId hash metadata hm
  simp [empty,getMetadataByHash] at hm

theorem WellKept.putNoVerification (hw : self.WellKept sha3) :
    (self.putNoVerification sha3 laneId (metadata,dp)).WellKept sha3 := by
  intro laneId' hash' metadata' hm
  rw [getMetadataByHash_putNoVerification] at hm
  rw [getDpByHash_putNoVerification]
  split_ifs at hm ⊢ with hk
  · exact ⟨dp,rfl,((key_inj.mp hk).2).symm⟩
  · exact hw _ _ _ hm

theorem WellKept.appended (hw : self.WellKept sha3) :
    (self.appended sha3 laneId metadata dp).WellKept sha3 := hw.putNoVerification

theorem WellKept.signed (hw : self.WellKept sha3) :
    (self.signed laneId hash votes).WellKept sha3 := by
  intro laneId' hash' metadata' hm
  rw [getMetadataByHash_signed] at hm
  rw [getDpByHash_signed]
  split_ifs at hm
  · obtain ⟨lem,hl,_⟩ := Option.map_eq_some_iff.mp hm
    exact hw _ _ _ hl
  · exact hw _ _ _ hm

theorem WellKept.popped {entry : LaneEntryMetadata} {tip : DataProposalHash}
    (hw : self.WellKept sha3) : (self.popped laneId tip entry).WellKept sha3 := by
  intro laneId' hash' metadata' hm
  rw [getMetadataByHash_popped] at hm
  rw [getDpByHash_popped]
  split_ifs at hm ⊢ with hk
  exact hw _ _ _ hm

theorem WellKept.updateLaneTip {size : LaneBytesSize} (hw : self.WellKept sha3) :
    (self.updateLaneTip laneId hash size).WellKept sha3 := hw

/-- Only the entry of the tip can leave the storage at once. -/
theorem WellKept.pop_cases (hw : self.WellKept sha3) (laneId : LaneId) :
    (self.pop laneId=(.ok none,self) ∧
      ∀ tip,self.getLaneHashTip laneId=some tip → self.getMetadataByHash laneId tip=none) ∨
    ∃ tip entry dp,self.getLaneHashTip laneId=some tip ∧
      self.getMetadataByHash laneId tip=some entry ∧
      self.pop laneId=(.ok (some (tip,entry,dp)),self.popped laneId tip entry) := by
  unfold pop
  cases ht : self.getLaneHashTip laneId with
  | none => exact Or.inl ⟨rfl,by simp⟩
  | some tip =>
    dsimp only
    cases hm : self.getMetadataByHash laneId tip with
    | none => exact Or.inl ⟨rfl,by simp [hm]⟩
    | some entry =>
      obtain ⟨dp,hd,_⟩ := hw _ _ _ hm
      refine Or.inr ⟨tip,entry,dp,rfl,hm,?_⟩
      simp only [hd]
      rfl

/-- Whatever the previous cut, cleaning a lane takes out the entry of its tip at most: the
tip stays, so the next round finds no entry for it. -/
theorem WellKept.cleanAndUpdateLane_cases (hw : self.WellKept sha3) (laneId : LaneId)
    (previous : Option DataProposalHash) (new : DataProposalHash) (size : LaneBytesSize) :
    ∃ cleaned,self.cleanAndUpdateLane sha3 laneId previous new size=
        (.ok (),cleaned.updateLaneTip laneId new size) ∧
      (cleaned=self ∨ ∃ tip entry,self.getLaneHashTip laneId=some tip ∧ some tip≠previous ∧
        self.getMetadataByHash laneId tip=some entry ∧ cleaned=self.popped laneId tip entry) := by
  unfold cleanAndUpdateLane
  dsimp only
  by_cases ht : self.getLaneHashTip laneId≠previous ∧ self.getLaneHashTip laneId≠some new
  · rw [if_pos ht,popUntil]
    obtain ⟨hp,_⟩|⟨tip,entry,dp,hl,hm,hp⟩ := hw.pop_cases laneId
    · rw [hp]
      exact ⟨self,rfl,Or.inl rfl⟩
    · have apart : some tip≠previous := by
        rw [← hl]
        exact ht.1
      have stays : (self.popped laneId tip entry).getLaneHashTip laneId=some tip := by
        unfold getLaneHashTip
        rw [lanesTip_popped,if_pos rfl]
        rfl
      have gone : (self.popped laneId tip entry).getMetadataByHash laneId tip=none := by
        rw [getMetadataByHash_popped,if_pos rfl]
      have ended : ∀ fuel,popUntil sha3 laneId previous fuel (self.popped laneId tip entry)=
          (.ok (),self.popped laneId tip entry) := by
        intro fuel
        cases fuel with
        | zero => rfl
        | succ fuel => simp [popUntil,pop,stays,gone]
      rw [hp]
      dsimp only
      rw [if_neg apart,ended]
      exact ⟨_,rfl,Or.inr ⟨tip,entry,hl,apart,hm,rfl⟩⟩
  · rw [if_neg ht]
    exact ⟨self,rfl,Or.inl rfl⟩

end WellKept

end LanesStorage

namespace Mempool

open LanesStorage

variable {m : Mempool} {laneId : LaneId} {hash : DataProposalHash} {dp : DataProposal}

section Lanes

@[simp] theorem lanes_cacheVerdict {verdict : DataProposalVerdict} :
    (m.cacheVerdict laneId hash verdict).lanes=m.lanes := rfl

@[simp] theorem lanes_spawn {task : ProcessingDp} : (m.spawn task).lanes=m.lanes := rfl

@[simp] theorem lanes_withLanes {lanes : LanesStorage} : (m.withLanes lanes).lanes=lanes := rfl

@[simp] theorem lanes_sendSyncRequest {fromHash toHash : Option DataProposalHash} :
    (m.sendSyncRequest laneId fromHash toHash).lanes=m.lanes := rfl

@[simp] theorem lanes_broadcastNetMessage {message : MempoolNetMessage} :
    (m.broadcastNetMessage message).lanes=m.lanes := rfl

@[simp] theorem lanes_bufferProposal {sha3 : Bytes → H256} :
    (m.bufferProposal sha3 laneId dp).lanes=m.lanes := rfl

@[simp] theorem lanes_sendVote {validator : ValidatorPublicKey} {size : LaneBytesSize} :
    (m.sendVote env validator hash size).2.lanes=m.lanes := by
  unfold sendVote
  cases env.crypto.sign (hash,size) <;> rfl

@[simp] theorem lanes_onDataProposal {receivedHash : DataProposalHash} :
    (m.onDataProposal env laneId receivedHash dp).2.lanes=m.lanes := by
  unfold onDataProposal
  split <;> simp

@[simp] theorem lanes_onHashedDataProposal :
    (m.onHashedDataProposal env laneId dp).2.lanes=m.lanes := by
  unfold onHashedDataProposal
  cases hv : (m.getVerdict env.sha3 laneId dp).1 <;> simp [hv]

@[simp] theorem lanes_takeBufferedChild :
    (m.takeBufferedChild laneId hash).2.lanes=m.lanes := by
  unfold takeBufferedChild
  split
  · rfl
  · split <;> rfl

@[simp] theorem lanes_onPodaUpdate {podas : List ValidatorDAG} :
    (m.onPodaUpdate laneId hash podas).lanes=m.lanes.signed laneId hash podas := by
  unfold onPodaUpdate LanesStorage.signed
  split <;> simp_all

/-- The votes that wait for a data proposal, in the order in which they are taken. -/
def waitingVotes (m : Mempool) (laneId : LaneId) (hash : DataProposalHash) : List ValidatorDAG :=
  ((m.bufferedPodas.getD laneId ∅).getD hash []).reverse.flatten

theorem lanes_foldl_onPodaUpdate (podas : List (List ValidatorDAG)) :
    (podas.foldl (fun m p => m.onPodaUpdate laneId hash p) m).lanes=
      m.lanes.signed laneId hash podas.flatten := by
  induction podas generalizing m with
  | nil => exact signed_nil.symm
  | cons p podas ih =>
    rw [List.foldl_cons,ih,lanes_onPodaUpdate,signed_append,List.flatten_cons]

theorem lanes_processBufferedPodas : (m.processBufferedPodas laneId hash).lanes=
    m.lanes.signed laneId hash (m.waitingVotes laneId hash) := by
  have lane : m.bufferedPodas.getD laneId ∅=m.bufferedPodas[laneId]?.getD ∅ :=
    Std.ExtTreeMap.getD_eq_getD_getElem?
  unfold processBufferedPodas waitingVotes
  rw [lane]
  cases m.bufferedPodas[laneId]? with
  | none => exact signed_nil.symm
  | some lane => exact lanes_foldl_onPodaUpdate _

theorem lanes_onStoredDataProposal : (m.onStoredDataProposal env laneId hash).2.lanes=
    m.lanes.signed laneId hash (m.waitingVotes laneId hash) := by
  unfold onStoredDataProposal
  have same : ((m.processBufferedPodas laneId hash).takeBufferedChild laneId hash).2.lanes=
      m.lanes.signed laneId hash (m.waitingVotes laneId hash) :=
    lanes_takeBufferedChild.trans lanes_processBufferedPodas
  cases hc : (m.processBufferedPodas laneId hash).takeBufferedChild laneId hash with
  | mk child next =>
    rw [hc] at same
    cases child with
    | none => exact same
    | some dp => exact lanes_onHashedDataProposal.trans same

theorem lanes_onProcessedDataProposal (env : MempoolEnv PublicKey BlstSignature) (m : Mempool)
    (laneId : LaneId) (verdict : DataProposalVerdict) (dp : DataProposal) :
    (m.onProcessedDataProposal env laneId verdict dp).2.lanes=m.lanes ∨
      verdict=.vote ∧ ∃ metadata,Appends env m.lanes laneId metadata dp ∧
        (m.onProcessedDataProposal env laneId verdict dp).2.lanes=
          (m.lanes.appended env.sha3 laneId metadata dp).signed laneId (dp.hashed env.sha3)
            (m.waitingVotes laneId (dp.hashed env.sha3)) := by
  unfold onProcessedDataProposal
  cases verdict with
  | vote =>
    dsimp only
    obtain ⟨e,he⟩|⟨metadata,appends,he⟩ := storeDataProposal_cases env m.lanes laneId dp
    · rw [lanes_cacheVerdict,he]
      exact Or.inl rfl
    · refine Or.inr ⟨rfl,metadata,appends,?_⟩
      obtain ⟨signature,sign,_⟩ := appends.signature
      rw [lanes_cacheVerdict,he]
      dsimp only
      -- The message of the vote is the one that the storage has just signed.
      unfold sendVote
      rw [sign]
      exact lanes_onStoredDataProposal
  | refuse => exact Or.inl rfl
  | empty => exact Or.inl rfl
  | wait => exact Or.inl rfl
  | process => exact Or.inl rfl

/-- The data proposal that the next task has found to be valid. -/
def verifiedDp (env : MempoolEnv PublicKey BlstSignature) (m : Mempool)
    (known : KnownContracts) : Option (LaneId × DataProposal) :=
  match m.processingDps with
  | .processing laneId dp::_ =>
      match processDataProposal env.verifiers known dp with
      | .ok (.vote,dp) => some (laneId,dp)
      | _ => none
  | _ => none

theorem lanes_onTask (env : MempoolEnv PublicKey BlstSignature) (m : Mempool)
    (known : KnownContracts) :
    (m.onTask env known).2.lanes=m.lanes ∨
      ∃ laneId dp metadata,m.verifiedDp env known=some (laneId,dp) ∧
        Appends env m.lanes laneId metadata dp ∧
        (m.onTask env known).2.lanes=
          (m.lanes.appended env.sha3 laneId metadata dp).signed laneId (dp.hashed env.sha3)
            (m.waitingVotes laneId (dp.hashed env.sha3)) := by
  unfold onTask verifiedDp
  cases m.processingDps with
  | nil => exact Or.inl rfl
  | cons task tasks =>
    cases task with
    | hashing laneId receivedHash dp =>
      dsimp only
      split_ifs
      · exact Or.inl lanes_onHashedDataProposal
      · exact Or.inl rfl
    | processing laneId dp =>
      dsimp only
      cases processDataProposal env.verifiers known dp with
      | error e => exact Or.inl rfl
      | ok result =>
        obtain ⟨verdict,dp⟩ := result
        obtain h|⟨rfl,metadata,appends,h⟩ := lanes_onProcessedDataProposal env
          { m with processingDps := tasks } laneId verdict dp
        · exact Or.inl h
        · exact Or.inr ⟨laneId,dp,metadata,rfl,appends,h⟩

theorem lanes_onDataVote {vdag : ValidatorDAG} : (m.onDataVote env vdag).2.lanes=
    m.lanes.signed (ownLaneId env) vdag.msg.1 [vdag] := by
  unfold onDataVote LanesStorage.signed
  cases ha : m.lanes.addSignatures (ownLaneId env) vdag.msg.1 [vdag] with
  | mk result lanes =>
    cases result with
    | error e => rfl
    | ok signatures =>
      dsimp only
      split_ifs <;> rfl

@[simp] theorem lanes_retryProposals {waiting : List DataProposal} :
    (retryProposals env laneId waiting m).2.lanes=m.lanes := by
  induction waiting generalizing m with
  | nil => rfl
  | cons wp wps ih =>
    have head : (m.onDataProposal env laneId (wp.hashed env.sha3) wp).2.lanes=m.lanes :=
      lanes_onDataProposal
    unfold retryProposals
    split_ifs
    · exact ih
    · cases ho : m.onDataProposal env laneId (wp.hashed env.sha3) wp with
      | mk result next =>
        rw [ho] at head
        cases result with
        | error e => exact head
        | ok u => exact ih.trans head

theorem lanes_onSyncReply {sender : ValidatorPublicKey} {metadata : LaneEntryMetadata} :
    (m.onSyncReply env sender metadata dp).2.lanes=
      if signedByOperator env.sha3 sender metadata dp then
        m.lanes.putNoVerification env.sha3 sender (metadata,dp)
      else m.lanes := by
  unfold onSyncReply
  split_ifs with hs
  · dsimp only
    split <;> simp
  · rfl

theorem lanes_resumeNewDataProposal (env : MempoolEnv PublicKey BlstSignature) (m : Mempool) :
    (m.resumeNewDataProposal env).2.lanes=m.lanes ∨
      ∃ dp metadata,m.ownDataProposalInPreparation.head?=some dp ∧
        Appends env m.lanes (ownLaneId env) metadata dp ∧
        (m.resumeNewDataProposal env).2.lanes=
          m.lanes.appended env.sha3 (ownLaneId env) metadata dp := by
  unfold resumeNewDataProposal
  cases m.ownDataProposalInPreparation with
  | nil => exact Or.inl rfl
  | cons dp dps =>
    obtain ⟨e,he⟩|⟨metadata,appends,he⟩ :=
      storeDataProposal_cases env m.lanes (ownLaneId env) dp
    · simp only [he]
      exact Or.inl rfl
    · simp only [he]
      exact Or.inr ⟨dp,metadata,rfl,appends,rfl⟩

end Lanes

/-- An invariant of the lanes, with what each change of them that comes from outside must
meet for it. -/
structure Keeps (env : MempoolEnv PublicKey BlstSignature)
    (append reply : LanesStorage → LaneId → LaneEntryMetadata → DataProposal → Prop)
    (sign : LanesStorage → LaneId → DataProposalHash → List ValidatorDAG → Prop)
    (tip : LanesStorage → LaneId → DataProposalHash → Prop)
    (I : LanesStorage → Prop) : Prop where
  appended : ∀ lanes laneId metadata dp,lanes.WellKept env.sha3 → I lanes →
    Appends env lanes laneId metadata dp → append lanes laneId metadata dp →
    I (lanes.appended env.sha3 laneId metadata dp)
  replied : ∀ lanes laneId metadata dp,lanes.WellKept env.sha3 → I lanes →
    signedByOperator env.sha3 laneId metadata dp=true → reply lanes laneId metadata dp →
    I (lanes.putNoVerification env.sha3 laneId (metadata,dp))
  signed : ∀ lanes laneId hash votes,lanes.WellKept env.sha3 → I lanes →
    sign lanes laneId hash votes → I (lanes.signed laneId hash votes)
  popped : ∀ lanes laneId last entry,lanes.WellKept env.sha3 → I lanes →
    lanes.getLaneHashTip laneId=some last → lanes.getMetadataByHash laneId last=some entry →
    I (lanes.popped laneId last entry)
  tip_popped : ∀ lanes laneId last entry hash,tip lanes laneId hash →
    tip (lanes.popped laneId last entry) laneId hash
  retipped : ∀ lanes laneId hash size,lanes.WellKept env.sha3 → I lanes →
    lanes.getMetadataByHash laneId hash=none → tip lanes laneId hash →
    I (lanes.updateLaneTip laneId hash size)

section Run
variable (env) (append reply : LanesStorage → LaneId → LaneEntryMetadata → DataProposal → Prop)
variable (sign : LanesStorage → LaneId → DataProposalHash → List ValidatorDAG → Prop)
variable (tip : LanesStorage → LaneId → DataProposalHash → Prop)

/-- Each data proposal of a new cut that becomes the tip of its lane without being stored meets
the condition, in the state that the lanes before it in the cut lead to. -/
def CutMeets (previousCut : Option Cut) : Cut → Mempool → Prop
  | [],_ => True
  | entry::cut,m =>
      (m.lanes.contains entry.1 entry.2.1=false →
        previousHash previousCut entry.1≠some entry.2.1 → tip m.lanes entry.1 entry.2.1) ∧
      CutMeets previousCut cut (cleanAndUpdateLanes env previousCut [entry] m).2

/-- What an event changes in the lanes meets the conditions, in the state before it. -/
def Meets (m : Mempool) : Event → Prop
  | .netMessage sender message =>
      match message with
      | .dataVote vdag => sign m.lanes (ownLaneId env) vdag.msg.1 [vdag]
      | .podaUpdate hash signatures => sign m.lanes (getLane sender) hash signatures
      | .syncReply metadata dp =>
          signedByOperator env.sha3 sender metadata dp=true → reply m.lanes sender metadata dp
      | _ => True
  | .taskEnded known => ∀ laneId dp metadata,m.verifiedDp env known=some (laneId,dp) →
      Appends env m.lanes laneId metadata dp →
        append m.lanes laneId metadata dp ∧
        sign (m.lanes.appended env.sha3 laneId metadata dp) laneId (dp.hashed env.sha3)
          (m.waitingVotes laneId (dp.hashed env.sha3))
  | .ownDataProposalPrepared => ∀ dp metadata,m.ownDataProposalInPreparation.head?=some dp →
      Appends env m.lanes (ownLaneId env) metadata dp →
        append m.lanes (ownLaneId env) metadata dp
  | .commitConsensusProposal ccp =>
      CutMeets env tip (m.lastCcp.map fun last => last.consensusProposal.cut)
        ccp.consensusProposal.cut ({ m with staking := ccp.staking }.updateLastCcp ccp)
  | .newDpTimer _ => True

/-- Every event of the run meets the conditions. -/
def RunMeets (events : List Event) : Prop :=
  ∀ before event after,events=before++event::after →
    Meets env append reply sign tip (run env before) event

variable {env append reply sign tip} {I : LanesStorage → Prop}

theorem runMeets_nil : RunMeets env append reply sign tip [] := by
  intro before event after he
  simp at he

theorem RunMeets.concat {events : List Event} {event : Event}
    (hr : RunMeets env append reply sign tip events)
    (hm : Meets env append reply sign tip (run env events) event) :
    RunMeets env append reply sign tip (events++[event]) := by
  intro before e after he
  obtain rfl|⟨after,last,rfl⟩ := List.eq_nil_or_concat after
  · obtain ⟨rfl,last⟩ := List.append_inj' he rfl
    obtain ⟨rfl,_⟩ := List.cons.inj last
    exact hm
  · rw [List.concat_eq_append,← List.cons_append,← List.append_assoc] at he
    obtain ⟨rfl,_⟩ := List.append_inj' he rfl
    exact hr before e after rfl

theorem Keeps.of_cleanAndUpdateLanes (k : Keeps env append reply sign tip I)
    {previousCut : Option Cut} {cut : Cut} (hw : m.lanes.WellKept env.sha3) (hI : I m.lanes)
    (hm : CutMeets env tip previousCut cut m) :
    (cleanAndUpdateLanes env previousCut cut m).2.lanes.WellKept env.sha3 ∧
      I (cleanAndUpdateLanes env previousCut cut m).2.lanes := by
  induction cut generalizing m with
  | nil => exact ⟨hw,hI⟩
  | cons entry cut ih =>
    obtain ⟨laneId,hash,size,poda⟩ := entry
    obtain ⟨head,tail⟩ := hm
    unfold cleanAndUpdateLanes at tail ⊢
    by_cases hc : m.lanes.contains laneId hash=true
    · rw [if_pos hc] at tail ⊢
      exact ih hw hI tail
    · rw [if_neg hc] at tail ⊢
      dsimp only at tail ⊢
      by_cases hp : previousHash previousCut laneId=some hash
      · rw [if_pos hp] at tail ⊢
        exact ih hw hI tail
      · rw [if_neg hp] at tail ⊢
        obtain ⟨cleaned,he,hcl⟩ := hw.cleanAndUpdateLane_cases laneId
          (previousHash previousCut laneId) hash size
        have missing := Bool.eq_false_of_not_eq_true hc
        have absent : m.lanes.getMetadataByHash laneId hash=none := contains_eq_false.mp missing
        have kept : cleaned.WellKept env.sha3 ∧ I cleaned ∧
            cleaned.getMetadataByHash laneId hash=none ∧ tip cleaned laneId hash := by
          obtain rfl|⟨last,entry,ht,_,hm,rfl⟩ := hcl
          · exact ⟨hw,hI,absent,head missing hp⟩
          · refine ⟨hw.popped,k.popped _ _ _ _ hw hI ht hm,?_,
              k.tip_popped _ _ _ _ _ (head missing hp)⟩
            rw [getMetadataByHash_popped]
            split_ifs
            · rfl
            · exact absent
        rw [he] at tail ⊢
        exact ih kept.1.updateLaneTip (k.retipped _ _ _ _ kept.1 kept.2.1 kept.2.2.1 kept.2.2.2)
          tail

theorem lanes_newDpTimer {txs : List Transaction} :
    (step env m (.newDpTimer txs)).lanes=m.lanes := by
  change (m.prepareNewDataProposal env txs).lanes=m.lanes
  unfold prepareNewDataProposal
  split <;> rfl

theorem Keeps.of_step (k : Keeps env append reply sign tip I) {event : Event}
    (hw : m.lanes.WellKept env.sha3) (hI : I m.lanes)
    (hm : Meets env append reply sign tip m event) :
    (step env m event).lanes.WellKept env.sha3 ∧ I (step env m event).lanes := by
  cases event with
  | netMessage sender message =>
    cases message with
    | dataProposal hash dp =>
      have same : (step env m (.netMessage sender (.dataProposal hash dp))).lanes=m.lanes :=
        lanes_onDataProposal
      rw [same]
      exact ⟨hw,hI⟩
    | dataVote vdag =>
      have same : (step env m (.netMessage sender (.dataVote vdag))).lanes=
          m.lanes.signed (ownLaneId env) vdag.msg.1 [vdag] := lanes_onDataVote
      rw [same]
      exact ⟨hw.signed,k.signed _ _ _ _ hw hI hm⟩
    | podaUpdate hash signatures =>
      have same : (step env m (.netMessage sender (.podaUpdate hash signatures))).lanes=
          m.lanes.signed (getLane sender) hash signatures := lanes_onPodaUpdate
      rw [same]
      exact ⟨hw.signed,k.signed _ _ _ _ hw hI hm⟩
    | syncRequest fromHash toHash => exact ⟨hw,hI⟩
    | syncReply metadata dp =>
      have same : (step env m (.netMessage sender (.syncReply metadata dp))).lanes=_ :=
        lanes_onSyncReply
      rw [same]
      split_ifs with hs
      · exact ⟨hw.putNoVerification,k.replied _ _ _ _ hw hI hs (hm hs)⟩
      · exact ⟨hw,hI⟩
  | taskEnded known =>
    change (m.onTask env known).2.lanes.WellKept env.sha3 ∧ I (m.onTask env known).2.lanes
    obtain h|⟨laneId,dp,metadata,hv,ha,h⟩ := lanes_onTask env m known
    · rw [h]
      exact ⟨hw,hI⟩
    · obtain ⟨append,sign⟩ := hm laneId dp metadata hv ha
      have stored := k.appended _ _ _ _ hw hI ha append
      rw [h]
      exact ⟨hw.appended.signed,k.signed _ _ _ _ hw.appended stored sign⟩
  | commitConsensusProposal ccp =>
    have same : ({ m with staking := ccp.staking }.updateLastCcp ccp).lanes=m.lanes := by
      unfold updateLastCcp
      split
      · rfl
      · split <;> rfl
    apply k.of_cleanAndUpdateLanes
    · rw [same]
      exact hw
    · rw [same]
      exact hI
    · exact hm
  | newDpTimer txs =>
    rw [lanes_newDpTimer]
    exact ⟨hw,hI⟩
  | ownDataProposalPrepared =>
    change (m.resumeNewDataProposal env).2.lanes.WellKept env.sha3 ∧
      I (m.resumeNewDataProposal env).2.lanes
    obtain h|⟨dp,metadata,hd,ha,h⟩ := lanes_resumeNewDataProposal env m
    · rw [h]
      exact ⟨hw,hI⟩
    · rw [h]
      exact ⟨hw.appended,k.appended _ _ _ _ hw hI ha (hm dp metadata hd ha)⟩

theorem run_concat (env : MempoolEnv PublicKey BlstSignature) (events : List Event)
    (event : Event) : run env (events++[event])=step env (run env events) event := by
  unfold run
  rw [List.foldl_append]
  rfl

theorem Keeps.of_run_and_wellKept (k : Keeps env append reply sign tip I)
    (he : I LanesStorage.empty) {events : List Event}
    (hm : RunMeets env append reply sign tip events) :
    (run env events).lanes.WellKept env.sha3 ∧ I (run env events).lanes := by
  induction events using List.reverseRecOn with
  | nil => exact ⟨wellKept_empty,he⟩
  | append_singleton events event ih =>
    have earlier : RunMeets env append reply sign tip events := by
      intro before e after he
      exact hm before e (after++[event]) (by rw [he]; simp)
    obtain ⟨hw,hI⟩ := ih earlier
    rw [run_concat]
    exact k.of_step hw hI (hm events event [] rfl)

/-- The invariant holds in every state of a run whose events meet the conditions. -/
theorem Keeps.of_run (k : Keeps env append reply sign tip I) (he : I LanesStorage.empty)
    {events : List Event} (hm : RunMeets env append reply sign tip events) :
    I (run env events).lanes :=
  (k.of_run_and_wellKept he hm).2

end Run

theorem cutMeets_trivial {tip : LanesStorage → LaneId → DataProposalHash → Prop}
    (ht : ∀ lanes laneId hash,tip lanes laneId hash) {previousCut : Option Cut} {cut : Cut} :
    CutMeets env tip previousCut cut m := by
  induction cut generalizing m with
  | nil => trivial
  | cons entry cut ih => exact ⟨fun _ _ => ht _ _ _,ih⟩

theorem wellKept_step (env : MempoolEnv PublicKey BlstSignature) (event : Event)
    (hw : m.lanes.WellKept env.sha3) : (step env m event).lanes.WellKept env.sha3 := by
  have k : Keeps env (fun _ _ _ _ => True) (fun _ _ _ _ => True) (fun _ _ _ _ => True)
      (fun _ _ _ => True) fun _ => True := by
    constructor <;> intros <;> trivial
  refine (k.of_step hw trivial ?_).1
  cases event with
  | netMessage sender message => cases message <;> simp [Meets]
  | taskEnded known => simp [Meets]
  | commitConsensusProposal ccp => exact cutMeets_trivial fun _ _ _ => trivial
  | newDpTimer txs => trivial
  | ownDataProposalPrepared => simp [Meets]

/-- Whatever happens, each entry of the storage has its data proposal. -/
theorem wellKept_run (env : MempoolEnv PublicKey BlstSignature) (events : List Event) :
    (run env events).lanes.WellKept env.sha3 := by
  induction events using List.reverseRecOn with
  | nil => exact wellKept_empty
  | append_singleton events event ih =>
    rw [run_concat]
    exact wellKept_step env event ih

end Mempool

end

namespace Mempool

namespace SmallLanes

def tx (identity : Identity) : Transaction := ⟨1,.blob ⟨identity,[]⟩⟩

def first : DataProposal := ⟨none,[tx "alice"]⟩

def firstDigest : H256 :=
  ByteVec.ofNat 32 0x88ec3c3210af8d1a73a45b006b02e74bdcb0195359409d9358cefb8ef577e3c9

/-- Comes after the first data proposal. -/
def second : DataProposal := ⟨some (Bytes.hex firstDigest.toList),[tx "carol"]⟩

/-- Wants the place of the first data proposal. -/
def rival : DataProposal := ⟨none,[tx "bob"]⟩

def txDigests : List (Bytes × H256) :=
  [(utf8 "alice",
    ByteVec.ofNat 32 0xa7dcef9aef26202fce82a7c7d6672afb3a149db207d90a07e437d5abc7fc99ed),
   (utf8 "bob",
    ByteVec.ofNat 32 0xb5d577dc9ce59725e29886632e69ecdf3b6ca49c0a14f4315a2404fc1508672d),
   (utf8 "carol",
    ByteVec.ofNat 32 0x9255386a0faee0205777b798ba4fc6c4b2553be139e4ba27339d4722a471a632)]

def proposalDigests : List (Bytes × H256) :=
  let sha3 := ByteVec.lookup txDigests
  [(first.preimage sha3,firstDigest),
   (rival.preimage sha3,
    ByteVec.ofNat 32 0xa2c8e49e27c11dee108b07192e826a72f030811809d1a26c8ca5cf69892ac391),
   (second.preimage sha3,
    ByteVec.ofNat 32 0xcb6ea006e2724b1164df6bf32f64151d908e61013994dbdf3e20201efb615c25)]

/-- SHA3-256 at the byte strings that the data proposals lead to. -/
def sha3 : Bytes → H256 := ByteVec.lookup (txDigests++proposalDigests)

/-- The key of the node is 1. There is no proof to verify. -/
def env : MempoolEnv (List ValidatorPublicKey) Bytes where
  sha3 := sha3
  verifiers := ⟨fun _ _ _ => .error "",fun _ _ _ => .error ""⟩
  crypto := { Blst.ofSigned [] with signBytes := id, validatorPubkey := [1] }

def firstHash : DataProposalHash := first.hashed sha3

def rivalHash : DataProposalHash := rival.hashed sha3

def secondHash : DataProposalHash := second.hashed sha3

end SmallLanes

end Mempool

end TruthSeeker
