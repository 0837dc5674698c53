import TruthSeeker.Mempool.OwnLane

namespace TruthSeeker

open Outcome

section
variable {PublicKey BlstSignature : Type} {env : MempoolEnv PublicKey BlstSignature}

namespace Mempool

section Preparation
variable {m : Mempool} {laneId : LaneId} {hash : DataProposalHash} {dp : DataProposal}

@[simp] theorem preparation_sendVote {validator : ValidatorPublicKey} {size : LaneBytesSize} :
    (m.sendVote env validator hash size).2.ownDataProposalInPreparation=
      m.ownDataProposalInPreparation := by
  unfold sendVote
  cases env.crypto.sign (hash,size) <;> rfl

@[simp] theorem preparation_onDataProposal :
    (m.onDataProposal env laneId hash dp).2.ownDataProposalInPreparation=
      m.ownDataProposalInPreparation := by
  unfold onDataProposal
  split <;> simp [spawn]

@[simp] theorem preparation_onHashedDataProposal :
    (m.onHashedDataProposal env laneId dp).2.ownDataProposalInPreparation=
      m.ownDataProposalInPreparation := by
  unfold onHashedDataProposal
  cases hv : (m.getVerdict env.sha3 laneId dp).1 <;>
    simp [hv,cacheVerdict,spawn,bufferProposal]

@[simp] theorem preparation_takeBufferedChild :
    (m.takeBufferedChild laneId hash).2.ownDataProposalInPreparation=
      m.ownDataProposalInPreparation := by
  unfold takeBufferedChild
  split
  · rfl
  · split <;> rfl

@[simp] theorem preparation_onPodaUpdate {podas : List ValidatorDAG} :
    (m.onPodaUpdate laneId hash podas).ownDataProposalInPreparation=
      m.ownDataProposalInPreparation := by
  unfold onPodaUpdate
  split <;> rfl

@[simp] theorem preparation_processBufferedPodas :
    (m.processBufferedPodas laneId hash).ownDataProposalInPreparation=
      m.ownDataProposalInPreparation := by
  unfold processBufferedPodas
  split
  · rfl
  · exact List.foldlRecOn
      (motive := fun next : Mempool =>
        next.ownDataProposalInPreparation=m.ownDataProposalInPreparation) _ _ rfl
      fun next kept _ _ => preparation_onPodaUpdate.trans kept

@[simp] theorem preparation_onStoredDataProposal :
    (m.onStoredDataProposal env laneId hash).2.ownDataProposalInPreparation=
      m.ownDataProposalInPreparation := by
  have taken : ((m.processBufferedPodas laneId hash).takeBufferedChild
      laneId hash).2.ownDataProposalInPreparation=m.ownDataProposalInPreparation := by simp
  unfold onStoredDataProposal
  split
  · next hc =>
    rw [hc] at taken
    exact taken
  · next hc =>
    rw [hc] at taken
    exact preparation_onHashedDataProposal.trans taken

theorem preparation_onProcessedDataProposal {verdict : DataProposalVerdict} :
    (m.onProcessedDataProposal env laneId verdict dp).2.ownDataProposalInPreparation=
      m.ownDataProposalInPreparation := by
  unfold onProcessedDataProposal
  cases verdict with
  | vote =>
    dsimp only
    split
    · rfl
    · next hash size lanes _ =>
      have voted : ((((m.cacheVerdict laneId (dp.hashed env.sha3) .vote).withLanes lanes).sendVote
          env (getLaneOperator laneId) hash size).2).ownDataProposalInPreparation=
            m.ownDataProposalInPreparation := preparation_sendVote
      split
      · next hs =>
        rw [hs] at voted
        exact voted
      · next hs =>
        rw [hs] at voted
        exact preparation_onStoredDataProposal.trans voted
  | refuse => rfl
  | empty => rfl
  | wait => rfl
  | process => rfl

theorem preparation_onTask {known : KnownContracts} :
    (m.onTask env known).2.ownDataProposalInPreparation=m.ownDataProposalInPreparation := by
  unfold onTask
  split
  · rfl
  · split
    · split_ifs
      · exact preparation_onHashedDataProposal
      · rfl
    · split
      · rfl
      · exact preparation_onProcessedDataProposal

theorem preparation_onDataVote {vdag : ValidatorDAG} :
    (m.onDataVote env vdag).2.ownDataProposalInPreparation=
      m.ownDataProposalInPreparation := by
  unfold onDataVote
  split
  · rfl
  · dsimp only
    split_ifs <;> rfl

theorem preparation_retryProposals {waiting : List DataProposal} :
    (retryProposals env laneId waiting m).2.ownDataProposalInPreparation=
      m.ownDataProposalInPreparation := by
  induction waiting generalizing m with
  | nil => rfl
  | cons wp wps ih =>
    have head : (m.onDataProposal env laneId (wp.hashed env.sha3) wp).2.ownDataProposalInPreparation=
        m.ownDataProposalInPreparation := preparation_onDataProposal
    unfold retryProposals
    split_ifs
    · exact ih
    · split
      · next ho =>
        rw [ho] at head
        exact head
      · next ho =>
        rw [ho] at head
        exact ih.trans head

theorem preparation_onSyncReply {sender : ValidatorPublicKey} {metadata : LaneEntryMetadata} :
    (m.onSyncReply env sender metadata dp).2.ownDataProposalInPreparation=
      m.ownDataProposalInPreparation := by
  unfold onSyncReply
  split_ifs
  · dsimp only
    split
    · rfl
    · exact preparation_retryProposals
  · rfl

theorem preparation_handleNetMessage {sender : ValidatorPublicKey} {message : MempoolNetMessage} :
    (m.handleNetMessage env sender message).2.ownDataProposalInPreparation=
      m.ownDataProposalInPreparation := by
  cases message with
  | dataProposal hash dp => exact preparation_onDataProposal
  | dataVote vdag => exact preparation_onDataVote
  | podaUpdate hash signatures => exact preparation_onPodaUpdate
  | syncRequest fromHash toHash => rfl
  | syncReply metadata dp => exact preparation_onSyncReply

theorem preparation_cleanAndUpdateLanes {previousCut : Option Cut} {cut : Cut} :
    (cleanAndUpdateLanes env previousCut cut m).2.ownDataProposalInPreparation=
      m.ownDataProposalInPreparation := by
  induction cut generalizing m with
  | nil => rfl
  | cons entry cut ih =>
    unfold cleanAndUpdateLanes
    split_ifs
    · exact ih
    · dsimp only
      split_ifs
      · exact ih
      · split
        · rfl
        · exact ih

theorem updateLastCcp_fields (m : Mempool) (ccp : CommittedConsensusProposal) :
    (m.updateLastCcp ccp).lanes=m.lanes ∧
      (m.updateLastCcp ccp).ownDataProposalInPreparation=m.ownDataProposalInPreparation := by
  unfold updateLastCcp
  split
  · exact ⟨rfl,rfl⟩
  · split_ifs <;> exact ⟨rfl,rfl⟩

theorem preparation_onCommitConsensusProposal {ccp : CommittedConsensusProposal} :
    (m.onCommitConsensusProposal env ccp).2.ownDataProposalInPreparation=
      m.ownDataProposalInPreparation :=
  preparation_cleanAndUpdateLanes.trans (updateLastCcp_fields _ ccp).2

end Preparation

end Mempool

def DataProposal.txHashes (sha3 : Bytes → H256) (dp : DataProposal) : List TxHash :=
  dp.txs.map fun tx => tx.hashed sha3

namespace LanesStorage

section Own
variable (sha3 : Bytes → H256) (lanes : LanesStorage) (own : LaneId)

/-- A data proposal of the lane is stored with the transaction. -/
def Stores (hash : TxHash) : Prop :=
  ∃ dpHash entry,lanes.getEntryByHash own dpHash=some entry ∧ hash∈entry.2.txHashes sha3

/-- A reply that takes the place of an entry of the lane has the transactions of that entry. -/
def RepliesAlike (sender : ValidatorPublicKey) (dp : DataProposal) : Prop :=
  ∀ stored,ValidatorPublicKey.display own=ValidatorPublicKey.display sender →
    lanes.getDpByHash own (dp.hashed sha3)=some stored →
    ∀ hash∈stored.txHashes sha3,hash∈dp.txHashes sha3

/-- No data proposal of the cut makes the clean-up take out the tip of a lane that is displayed
like the own one. -/
def SparedBy (previousCut : Option Cut) (cut : Cut) : Prop :=
  ∀ entry∈cut,∀ tip,lanes.contains entry.1 entry.2.1=false →
    Mempool.previousHash previousCut entry.1≠some entry.2.1 →
    lanes.getLaneHashTip entry.1=some tip → lanes.contains entry.1 tip=true →
    some tip≠Mempool.previousHash previousCut entry.1 →
    ValidatorPublicKey.display own≠ValidatorPublicKey.display entry.1

end Own

variable {sha3 : Bytes → H256} {lanes : LanesStorage} {own laneId : LaneId}
  {hash : TxHash} {dpHash : DataProposalHash} {metadata : LaneEntryMetadata} {dp : DataProposal}

theorem stores_iff : lanes.Stores sha3 own hash ↔
    ∃ dpHash metadata dp,lanes.getMetadataByHash own dpHash=some metadata ∧
      lanes.getDpByHash own dpHash=some dp ∧ hash∈dp.txHashes sha3 := by
  constructor
  · rintro ⟨dpHash,⟨metadata,dp⟩,he,hd⟩
    obtain ⟨hm,hp⟩ := getEntryByHash_eq_some.mp he
    exact ⟨dpHash,metadata,dp,hm,hp,hd⟩
  · rintro ⟨dpHash,metadata,dp,hm,hp,hd⟩
    exact ⟨dpHash,(metadata,dp),getEntryByHash_eq_some.mpr ⟨hm,hp⟩,hd⟩

theorem Stores.putNoVerification (h : lanes.Stores sha3 own hash)
    (alike : lanes.RepliesAlike sha3 own laneId dp) :
    (lanes.putNoVerification sha3 laneId (metadata,dp)).Stores sha3 own hash := by
  obtain ⟨place,before,stored,hm,hd,hh⟩ := stores_iff.mp h
  rw [stores_iff]
  by_cases hk : key own place=key laneId (dp.hashed sha3)
  · obtain ⟨display,rfl⟩ := key_inj.mp hk
    refine ⟨dp.hashed sha3,metadata,dp,?_,?_,alike stored display hd hash hh⟩
    · rw [getMetadataByHash_putNoVerification,if_pos hk]
    · rw [getDpByHash_putNoVerification,if_pos hk]
  · refine ⟨place,before,stored,?_,?_,hh⟩
    · rw [getMetadataByHash_putNoVerification,if_neg hk]
      exact hm
    · rw [getDpByHash_putNoVerification,if_neg hk]
      exact hd

/-- A new entry takes no place. -/
theorem Stores.appended (h : lanes.Stores sha3 own hash)
    (absent : lanes.contains laneId (dp.hashed sha3)=false) :
    (lanes.appended sha3 laneId metadata dp).Stores sha3 own hash := by
  obtain ⟨place,stored,storedDp,hm,hd,hh⟩ := stores_iff.mp h
  have apart : key own place≠key laneId (dp.hashed sha3) := by
    intro hk
    have missing := contains_eq_false.mp absent
    unfold getMetadataByHash at hm missing
    rw [hk,missing] at hm
    cases hm
  refine stores_iff.mpr ⟨place,stored,storedDp,?_,?_,hh⟩
  · rw [getMetadataByHash_appended,if_neg apart]
    exact hm
  · rw [getDpByHash_appended,if_neg apart]
    exact hd

theorem Stores.signed {votes : List ValidatorDAG} (h : lanes.Stores sha3 own hash) :
    (lanes.signed laneId dpHash votes).Stores sha3 own hash := by
  obtain ⟨place,metadata,dp,hm,hd,hh⟩ := stores_iff.mp h
  rw [stores_iff]
  refine ⟨place,if key own place=key laneId dpHash then votes.foldl (addSignature dpHash) metadata
    else metadata,dp,?_,getDpByHash_signed.trans hd,hh⟩
  rw [getMetadataByHash_signed,hm]
  split_ifs <;> rfl

theorem Stores.popped {tip : DataProposalHash} (h : lanes.Stores sha3 own hash)
    (apart : ValidatorPublicKey.display own≠ValidatorPublicKey.display laneId) :
    (lanes.popped laneId tip metadata).Stores sha3 own hash := by
  obtain ⟨place,stored,dp,hm,hd,hh⟩ := stores_iff.mp h
  have keys : key own place≠key laneId tip := fun hk => apart (key_inj.mp hk).1
  refine stores_iff.mpr ⟨place,stored,dp,?_,?_,hh⟩
  · rw [getMetadataByHash_popped,if_neg keys]
    exact hm
  · rw [getDpByHash_popped,if_neg keys]
    exact hd

theorem Stores.updateLaneTip {size : LaneBytesSize} (h : lanes.Stores sha3 own hash) :
    (lanes.updateLaneTip laneId dpHash size).Stores sha3 own hash := h

theorem stores_appended (hh : hash∈dp.txHashes sha3) :
    (lanes.appended sha3 own metadata dp).Stores sha3 own hash := by
  refine stores_iff.mpr ⟨dp.hashed sha3,metadata,dp,?_,?_,hh⟩
  · rw [getMetadataByHash_appended,if_pos rfl]
  · rw [getDpByHash_appended,if_pos rfl]

/-- What spares the lane in the rest of a cut still does so after its first data proposal. -/
theorem SparedBy.tail {previousCut : Option Cut} {cut : Cut}
    {entry : LaneId × DataProposalHash × LaneBytesSize × PoDA} {cleaned : LanesStorage}
    (h : lanes.SparedBy own previousCut (entry::cut))
    (absent : lanes.contains entry.1 entry.2.1=false)
    (hcl : cleaned=lanes ∨ ValidatorPublicKey.display own≠ValidatorPublicKey.display entry.1 ∧
      ∃ tip metadata,cleaned=lanes.popped entry.1 tip metadata) :
    (cleaned.updateLaneTip entry.1 entry.2.1 entry.2.2.1).SparedBy own previousCut cut := by
  intro next hn last ha hp ht hc hl alike
  have same : ∀ h,cleaned.contains next.1 h=lanes.contains next.1 h := by
    obtain rfl|⟨apart,tip,metadata,rfl⟩ := hcl
    · exact fun h => rfl
    · intro h
      have keys : key next.1 h≠key entry.1 tip := fun hk =>
        apart (alike.trans (key_inj.mp hk).1)
      rw [Bool.eq_iff_iff,contains_eq_true,contains_eq_true,getMetadataByHash_popped,if_neg keys]
  have ha : lanes.contains next.1 next.2.1=false := (same _).symm.trans ha
  have hc : lanes.contains next.1 last=true := (same _).symm.trans hc
  unfold getLaneHashTip at ht
  rw [lanesTip_updateLaneTip] at ht
  split_ifs at ht with here
  · -- The new tip is the data proposal that is not stored.
    obtain rfl := Option.some.inj ht
    rw [here,absent] at hc
    cases hc
  · have before : cleaned.lanesTip[next.1]?=lanes.lanesTip[next.1]? := by
      obtain rfl|⟨_,tip,metadata,rfl⟩ := hcl
      · rfl
      · rw [lanesTip_popped,if_neg here]
    rw [before] at ht
    exact h next (List.mem_cons_of_mem _ hn) last ha hp ht hc hl alike

end LanesStorage

namespace Mempool

open LanesStorage

section Lanes
variable {m : Mempool} {own : LaneId} {hash : TxHash}

theorem stores_onSyncReply {sender : ValidatorPublicKey} {metadata : LaneEntryMetadata}
    {dp : DataProposal} (h : m.lanes.Stores env.sha3 own hash)
    (alike : signedByOperator env.sha3 sender metadata dp=true →
      m.lanes.RepliesAlike env.sha3 own sender dp) :
    (m.onSyncReply env sender metadata dp).2.lanes.Stores env.sha3 own hash := by
  rw [lanes_onSyncReply]
  split_ifs with hs
  · exact h.putNoVerification (alike hs)
  · exact h

theorem stores_onTask {known : KnownContracts} (h : m.lanes.Stores env.sha3 own hash) :
    (m.onTask env known).2.lanes.Stores env.sha3 own hash := by
  obtain hl|⟨laneId,dp,metadata,_,appends,hl⟩ := lanes_onTask env m known
  · rw [hl]
    exact h
  · rw [hl]
    exact (h.appended appends.absent).signed

theorem stores_cleanAndUpdateLanes {previousCut : Option Cut} {cut : Cut}
    (hw : m.lanes.WellKept env.sha3) (h : m.lanes.Stores env.sha3 own hash)
    (spared : m.lanes.SparedBy own previousCut cut) :
    (cleanAndUpdateLanes env previousCut cut m).2.lanes.Stores env.sha3 own hash := by
  induction cut generalizing m with
  | nil => exact h
  | cons entry cut ih =>
    have rest : m.lanes.SparedBy own previousCut cut := fun e he =>
      spared e (List.mem_cons_of_mem _ he)
    obtain ⟨laneId,dpHash,size,poda⟩ := entry
    unfold cleanAndUpdateLanes
    by_cases hc : m.lanes.contains laneId dpHash=true
    · rw [if_pos hc]
      exact ih hw h rest
    · rw [if_neg hc]
      dsimp only
      by_cases hp : previousHash previousCut laneId=some dpHash
      · rw [if_pos hp]
        exact ih hw h rest
      · rw [if_neg hp]
        have absent := Bool.eq_false_of_not_eq_true hc
        obtain ⟨cleaned,he,hcl⟩ := hw.cleanAndUpdateLane_cases laneId
          (previousHash previousCut laneId) dpHash size
        rw [he]
        obtain rfl|⟨tip,entry,ht,previous,hm,rfl⟩ := hcl
        · exact ih hw.updateLaneTip h.updateLaneTip
            (spared.tail absent (Or.inl rfl))
        · have apart := spared _ List.mem_cons_self tip absent hp ht
            (contains_eq_true.mpr ⟨entry,hm⟩) previous
          exact ih hw.popped.updateLaneTip (h.popped apart).updateLaneTip
            (spared.tail absent (Or.inr ⟨apart,tip,entry,rfl⟩))

end Lanes

end Mempool

namespace OwnLane

open Mempool LanesStorage

section Definitions
variable (env) (m : OwnLane env.sha3)

/-- The transaction waits, is part of a data proposal in preparation, or is stored in the own
lane. -/
def Present (hash : TxHash) : Prop :=
  m.waitingDisseminationTxs.containsKey hash ∨
    (∃ dp∈m.mempool.ownDataProposalInPreparation,hash∈dp.txHashes env.sha3) ∨
    m.mempool.lanes.Stores env.sha3 (ownLaneId env) hash

/-- A proof transaction is not accepted yet: it comes back as a verified one. -/
def acceptedTx (sent : Bool) (tx : Transaction) : List TxHash :=
  match tx.transactionData with
  | .proof _ => []
  | _ => if (m.onNewTx env sent tx).1.isOk then [tx.hashed env.sha3] else []

/-- What `onNewTx` accepts at an event. -/
def acceptedAt : Event → List TxHash
  | .txTaskEnded known sent =>
      match m.processingTxs with
      | [] => []
      | task::tasks =>
          match ProcessingTx.result env known task with
          | .error _ => []
          | .ok tx => acceptedTx env { m with processingTxs := tasks } sent tx
  | _ => []

/-- The transactions that are accepted while a sequence of events is handled. -/
def accepted (m : OwnLane env.sha3) : List Event → List TxHash
  | [] => []
  | event::events => m.acceptedAt env event++accepted (m.step env event) events

/-- In every state of the run, each transaction that was accepted before is present. -/
def NoneLost (events : List Event) : Prop :=
  ∀ before,before<+:events → ∀ hash∈accepted env (new env) before,
    (run env before).Present env hash

/-- The data proposal is stored already, or can be put on the tip of the own lane. -/
def Storable (lanes : LanesStorage) (dp : DataProposal) : Prop :=
  if lanes.contains (ownLaneId env) (dp.hashed env.sha3) then
    ∃ stored,lanes.getDpByHash (ownLaneId env) (dp.hashed env.sha3)=some stored ∧
      ∀ hash∈dp.txHashes env.sha3,hash∈stored.txHashes env.sha3
  else
    lanes.canBePutOnTop (ownLaneId env) dp.parentDataProposalHash=.yes ∧
      ∃ signature,env.crypto.sign (dp.hashed env.sha3,
        (lanes.getLaneSizeTip (ownLaneId env)).getD 0+dp.estimateSize)=.ok signature

/-- The event neither drops a prepared data proposal nor takes an entry of the own lane away. -/
def Harmless : Event → Prop
  | .dataProposalPrepared joined sent =>
      ∀ dp,m.mempool.ownDataProposalInPreparation.head?=some dp →
        joined=true ∧ sent=true ∧ Storable env m.mempool.lanes dp
  | .netMessage sender (.syncReply metadata dp) =>
      signedByOperator env.sha3 sender metadata dp=true →
        m.mempool.lanes.RepliesAlike env.sha3 (ownLaneId env) sender dp
  | .commitConsensusProposal ccp => m.mempool.lanes.SparedBy (ownLaneId env)
      (m.mempool.lastCcp.map fun last => last.consensusProposal.cut) ccp.consensusProposal.cut
  | _ => True

/-- Every event of the run is harmless in the state before it. -/
def HarmlessRun (events : List Event) : Prop :=
  ∀ before event after,events=before++event::after → (run env before).Harmless env event

end Definitions

variable {m : OwnLane env.sha3} {hash : TxHash}

theorem Storable.stores {lanes : LanesStorage} {dp : DataProposal}
    (h : Storable env lanes dp) (hh : hash∈dp.txHashes env.sha3) :
    (lanes.storeDataProposal env.sha3 env.crypto (ownLaneId env) dp).2.Stores env.sha3
      (ownLaneId env) hash := by
  unfold Storable at h
  split_ifs at h with hc
  · obtain ⟨stored,hd,alike⟩ := h
    obtain ⟨metadata,hm⟩ := contains_eq_true.mp hc
    have there : lanes.Stores env.sha3 (ownLaneId env) hash :=
      stores_iff.mpr ⟨_,metadata,stored,hm,hd,alike hash hh⟩
    obtain ⟨e,he⟩|⟨metadata,appends,he⟩ := storeDataProposal_cases env lanes (ownLaneId env) dp
    · rw [he]
      exact there
    · rw [he]
      exact there.appended appends.absent
  -- The entry is new, so that the checks of the storage are those of the condition.
  · obtain ⟨top,signature,hs⟩ := h
    unfold storeDataProposal put
    dsimp only
    rw [hs]
    dsimp only
    rw [if_neg hc,top]
    exact stores_appended hh

theorem containsKey_insert {waiting : WaitingTxs env.sha3} {tx : Transaction}
    (h : ¬waiting.containsKey (tx.hashed env.sha3)) :
    (waiting.insert tx h).containsKey hash ↔
      waiting.containsKey hash ∨ hash=tx.hashed env.sha3 := by
  simp [WaitingTxs.insert,WaitingTxs.containsKey]

/-- A transaction of the queue is drained or stays. -/
theorem mem_drain {waiting : WaitingTxs env.sha3} (n : Nat) (h : waiting.containsKey hash) :
    hash∈(waiting.drain n).1.map (fun tx => tx.hashed env.sha3) ∨
      (waiting.drain n).2.containsKey hash := by
  obtain ⟨entry,he,rfl⟩ := List.mem_map.mp h
  have both : entry∈waiting.entries.take n++waiting.entries.drop n := by
    rw [List.take_append_drop]
    exact he
  obtain taken|stays := List.mem_append.mp both
  · refine Or.inl (List.mem_map.mpr ⟨entry.2,List.mem_map_of_mem taken,?_⟩)
    exact (waiting.keyed entry he).symm
  · exact Or.inr (List.mem_map_of_mem stays)

theorem drain_ne_nil {waiting : WaitingTxs env.sha3} (h : waiting.entries≠[]) :
    (waiting.drain (collectedLen 0 (waiting.entries.map Prod.snd))).1≠[] := by
  cases he : waiting.entries with
  | nil => exact absurd he h
  | cons entry entries => simp [WaitingTxs.drain,he,collectedLen]

theorem mempool_queue {sent : Bool} {tx : Transaction} :
    (m.queue env sent tx).2.mempool=m.mempool := by
  unfold queue
  split
  · rfl
  · dsimp only
    split_ifs <;> rfl

theorem containsKey_queue {sent : Bool} {tx : Transaction} :
    (m.queue env sent tx).2.waitingDisseminationTxs.containsKey hash ↔
      m.waitingDisseminationTxs.containsKey hash ∨ hash=tx.hashed env.sha3 := by
  unfold queue
  split
  · next h =>
    constructor
    · exact Or.inl
    · rintro (old|rfl)
      · exact old
      · exact h
  · next h =>
    dsimp only
    split_ifs <;> exact containsKey_insert h

/-- Whatever becomes of the transaction, those before it stay where they are. -/
theorem Present.onNewTx {sent : Bool} {tx : Transaction} (h : m.Present env hash) :
    (m.onNewTx env sent tx).2.Present env hash := by
  have queued : (m.queue env sent tx).2.Present env hash := by
    unfold Present
    rw [mempool_queue,containsKey_queue]
    exact h.imp Or.inl id
  unfold OwnLane.onNewTx
  split
  · split_ifs
    · exact h
    · exact queued
  · exact h
  · exact queued

theorem Present.onTxTask {known : KnownContracts} {sent : Bool} (h : m.Present env hash) :
    (m.onTxTask env known sent).2.Present env hash := by
  unfold OwnLane.onTxTask
  split
  · exact h
  · next task tasks _ =>
    have rest : Present env { m with processingTxs := tasks } hash := h
    dsimp only
    split
    · exact rest
    · exact rest.onNewTx

theorem Present.prepareNewDataProposal (h : m.Present env hash) :
    (m.prepareNewDataProposal env).Present env hash := by
  unfold OwnLane.prepareNewDataProposal
  dsimp only
  split_ifs with hn
  · exact h
  · obtain ⟨some,idle⟩ := not_or.mp hn
    have nonempty := drain_ne_nil some
    have idle : m.mempool.ownDataProposalInPreparation=[] := not_not.mp idle
    unfold Present Mempool.prepareNewDataProposal
    rw [if_neg (by simp [nonempty,idle])]
    obtain waits|⟨dp,hd,_⟩|stored := h
    · obtain taken|stays := mem_drain (collectedLen 0
        (m.waitingDisseminationTxs.entries.map Prod.snd)) waits
      · exact Or.inr (Or.inl ⟨_,List.mem_singleton_self _,taken⟩)
      · exact Or.inl stays
    · rw [idle] at hd
      cases hd
    · exact Or.inr (Or.inr stored)

theorem resumeNewDataProposal_cons {mempool : Mempool} {dp : DataProposal}
    {dps : List DataProposal} (h : mempool.ownDataProposalInPreparation=dp::dps) :
    (mempool.resumeNewDataProposal env).2=
      { mempool with
        ownDataProposalInPreparation := dps
        lanes := (mempool.lanes.storeDataProposal env.sha3 env.crypto (ownLaneId env) dp).2 } := by
  unfold resumeNewDataProposal
  simp only [h]
  split
  · next hs =>
    rw [hs]
    rfl
  · next hs =>
    rw [hs]
    rfl

theorem Present.onDataProposalPrepared {joined sent : Bool} (h : m.Present env hash)
    (harmless : m.Harmless env (.dataProposalPrepared joined sent)) :
    (m.onDataProposalPrepared env joined sent).Present env hash := by
  unfold OwnLane.onDataProposalPrepared
  cases hp : m.mempool.ownDataProposalInPreparation with
  | nil =>
    have same : (m.mempool.resumeNewDataProposal env).2=m.mempool := by
      unfold resumeNewDataProposal
      rw [hp]
    split_ifs
    · rw [same]
      exact h
    · exact h.imp id (Or.imp (fun ⟨dp,hd,_⟩ => by simp [hp] at hd) id)
  | cons dp dps =>
    obtain ⟨rfl,rfl,storable⟩ := harmless dp (by simp [hp])
    rw [if_pos ⟨rfl,rfl⟩]
    unfold Present
    rw [resumeNewDataProposal_cons hp]
    obtain waits|⟨other,hd,hh⟩|stored := h
    · exact Or.inl waits
    · rw [hp] at hd
      obtain rfl|later := List.mem_cons.mp hd
      · exact Or.inr (Or.inr (storable.stores hh))
      · exact Or.inr (Or.inl ⟨other,later,hh⟩)
    · refine Or.inr (Or.inr ?_)
      obtain ⟨e,he⟩|⟨metadata,appends,he⟩ :=
        storeDataProposal_cases env m.mempool.lanes (ownLaneId env) dp
      · rw [he]
        exact stored
      · rw [he]
        exact stored.appended appends.absent

/-- A change of the mempool that leaves the prepared data proposal and takes nothing out of the
own lane. -/
theorem Present.of_mempool {next : Mempool} (h : m.Present env hash)
    (prepared : next.ownDataProposalInPreparation=m.mempool.ownDataProposalInPreparation)
    (kept : m.mempool.lanes.Stores env.sha3 (ownLaneId env) hash →
      next.lanes.Stores env.sha3 (ownLaneId env) hash) :
    Present env { m with mempool := next } hash := by
  unfold Present
  dsimp only
  rw [prepared]
  exact h.imp id (Or.imp id kept)

/-- A harmless event loses nothing. -/
theorem Present.step {event : Event} (hw : m.mempool.lanes.WellKept env.sha3)
    (h : m.Present env hash) (harmless : m.Harmless env event) :
    (m.step env event).Present env hash := by
  cases event with
  | newApiTx tx => exact h
  | txTaskEnded known sent => exact h.onTxTask
  | newDpTimer => exact h.prepareNewDataProposal
  | dataProposalPrepared joined sent => exact h.onDataProposalPrepared harmless
  | netMessage sender message =>
    refine h.of_mempool preparation_handleNetMessage fun stored => ?_
    cases message with
    | dataProposal dpHash dp =>
      have same : (m.mempool.handleNetMessage env sender (.dataProposal dpHash dp)).2.lanes=
          m.mempool.lanes := lanes_onDataProposal
      exact same ▸ stored
    | dataVote vdag =>
      have same : (m.mempool.handleNetMessage env sender (.dataVote vdag)).2.lanes=
          m.mempool.lanes.signed (ownLaneId env) vdag.msg.1 [vdag] := lanes_onDataVote
      exact same ▸ stored.signed
    | podaUpdate dpHash signatures =>
      have same : (m.mempool.handleNetMessage env sender (.podaUpdate dpHash signatures)).2.lanes=
          m.mempool.lanes.signed (getLane sender) dpHash signatures := lanes_onPodaUpdate
      exact same ▸ stored.signed
    | syncRequest fromHash toHash => exact stored
    | syncReply metadata dp => exact stores_onSyncReply stored harmless
  | dpTaskEnded known => exact h.of_mempool preparation_onTask stores_onTask
  | commitConsensusProposal ccp =>
    refine h.of_mempool preparation_onCommitConsensusProposal fun stored => ?_
    have lanes := (updateLastCcp_fields { m.mempool with staking := ccp.staking } ccp).1
    refine stores_cleanAndUpdateLanes ?_ ?_ ?_
    · rw [lanes]
      exact hw
    · rw [lanes]
      exact stored
    · rw [lanes]
      exact harmless

theorem mempool_onTxTask {known : KnownContracts} {sent : Bool} :
    (m.onTxTask env known sent).2.mempool=m.mempool := by
  unfold onTxTask
  split
  · rfl
  · dsimp only
    split
    · rfl
    · unfold onNewTx
      split
      · split_ifs
        · rfl
        · exact mempool_queue
      · rfl
      · exact mempool_queue

theorem wellKept_step {event : Event} (hw : m.mempool.lanes.WellKept env.sha3) :
    (m.step env event).mempool.lanes.WellKept env.sha3 := by
  cases event with
  | newApiTx tx => exact hw
  | txTaskEnded known sent =>
    change (m.onTxTask env known sent).2.mempool.lanes.WellKept env.sha3
    rw [mempool_onTxTask]
    exact hw
  | newDpTimer =>
    change (m.prepareNewDataProposal env).mempool.lanes.WellKept env.sha3
    unfold prepareNewDataProposal
    dsimp only
    split_ifs
    · exact hw
    · exact Mempool.wellKept_step env (.newDpTimer _) hw
  | dataProposalPrepared joined sent =>
    change (m.onDataProposalPrepared env joined sent).mempool.lanes.WellKept env.sha3
    unfold onDataProposalPrepared
    split_ifs
    · exact Mempool.wellKept_step env .ownDataProposalPrepared hw
    · exact hw
  | netMessage sender message => exact Mempool.wellKept_step env _ hw
  | dpTaskEnded known => exact Mempool.wellKept_step env _ hw
  | commitConsensusProposal ccp => exact Mempool.wellKept_step env _ hw

theorem run_concat (env : MempoolEnv PublicKey BlstSignature) (events : List Event)
    (event : Event) : run env (events++[event])=(run env events).step env event := by
  unfold run
  rw [List.foldl_append]
  rfl

theorem wellKept_run (env : MempoolEnv PublicKey BlstSignature) (events : List Event) :
    (run env events).mempool.lanes.WellKept env.sha3 := by
  induction events using List.reverseRecOn with
  | nil => exact wellKept_empty
  | append_singleton events event ih =>
    rw [run_concat]
    exact wellKept_step ih

/-- An accepted transaction is in the queue. -/
theorem present_of_acceptedTx {sent : Bool} {tx : Transaction}
    (h : hash∈m.acceptedTx env sent tx) : (m.onNewTx env sent tx).2.Present env hash := by
  have queued : hash=tx.hashed env.sha3 → (m.queue env sent tx).2.Present env hash :=
    fun he => Or.inl (containsKey_queue.mpr (Or.inr he))
  unfold acceptedTx onNewTx at h
  unfold onNewTx
  cases hd : tx.transactionData with
  | blob blobTx =>
    simp only [hd,List.mem_ite_nil_right,List.mem_singleton] at h ⊢
    obtain ⟨ok,he⟩ := h
    split_ifs at ok ⊢
    · cases ok
    · exact queued he
  | proof proofTx => simp [hd] at h
  | verifiedProof proofTx =>
    simp only [hd,List.mem_ite_nil_right,List.mem_singleton] at h ⊢
    exact queued h.2

theorem present_of_acceptedAt {event : Event} (h : hash∈m.acceptedAt env event) :
    (m.step env event).Present env hash := by
  cases event with
  | txTaskEnded known sent =>
    change (m.onTxTask env known sent).2.Present env hash
    unfold acceptedAt at h
    unfold onTxTask
    cases hp : m.processingTxs with
    | nil => simp [hp] at h
    | cons task tasks =>
      simp only [hp] at h ⊢
      cases hr : ProcessingTx.result env known task with
      | error e => simp [hr] at h
      | ok tx =>
        simp only [hr] at h ⊢
        exact present_of_acceptedTx h
  | newApiTx tx => cases h
  | newDpTimer => cases h
  | dataProposalPrepared joined sent => cases h
  | netMessage sender message => cases h
  | dpTaskEnded known => cases h
  | commitConsensusProposal ccp => cases h

theorem HarmlessRun.concat {events : List Event} (h : HarmlessRun env events) (event : Event)
    (harmless : (run env events).Harmless env event) : HarmlessRun env (events++[event]) := by
  intro before e after he
  obtain rfl|⟨after,last,rfl⟩ := List.eq_nil_or_concat after
  · obtain ⟨rfl,last⟩ := List.append_inj' he rfl
    obtain ⟨rfl,_⟩ := List.cons.inj last
    exact harmless
  · rw [List.concat_eq_append,← List.cons_append,← List.append_assoc] at he
    obtain ⟨rfl,_⟩ := List.append_inj' he rfl
    exact h before e after rfl

theorem accepted_append (m : OwnLane env.sha3) (events events' : List Event) :
    accepted env m (events++events')=
      accepted env m events++accepted env (events.foldl (step env) m) events' := by
  induction events generalizing m with
  | nil => rfl
  | cons event events ih => simp [accepted,ih]

theorem present_of_accepted {events : List Event} (h : HarmlessRun env events) :
    ∀ hash∈accepted env (new env) events,(run env events).Present env hash := by
  induction events using List.reverseRecOn with
  | nil =>
    intro hash hh
    cases hh
  | append_singleton events event ih =>
    intro hash hh
    have earlier : HarmlessRun env events := by
      intro before e after he
      exact h before e (after++[event]) (by rw [he]; simp)
    rw [accepted_append,List.mem_append] at hh
    rw [run_concat]
    obtain old|new := hh
    · exact (ih earlier hash old).step (wellKept_run env events) (h events event [] rfl)
    · have new : hash∈acceptedAt env (run env events) event := by
        simpa [accepted,run] using new
      exact present_of_acceptedAt new

/-- No accepted transaction is lost in a run of harmless events. -/
theorem noneLost_run {events : List Event} (h : HarmlessRun env events) :
    NoneLost env events := by
  rintro before ⟨after,rfl⟩
  refine present_of_accepted ?_
  intro earlier event rest he
  exact h earlier event (rest++after) (by rw [he]; simp)

end OwnLane

end

namespace OwnLane

open Mempool LanesStorage

namespace SmallLanes

open Mempool.SmallLanes

/-- A transaction is accepted, and a data proposal is prepared from it. -/
def proposing : List Event :=
  [.newApiTx (tx "alice"),.txTaskEnded ∅ true,.newDpTimer]

/-- The cut has a data proposal that another process stored in the lane, with the same key. -/
def ccp : CommittedConsensusProposal :=
  ⟨Staking.new,⟨1,"",[([1],rivalHash,13,⟨[],[]⟩)],[],0⟩,⟨[],[]⟩⟩

def losing : List Event :=
  proposing++[.commitConsensusProposal ccp,.dataProposalPrepared true true]

def storing : List Event := proposing++[.dataProposalPrepared true true]

end SmallLanes

open Mempool.SmallLanes SmallLanes in
/-- A committed cut moves the tip of the own lane while the data proposal is prepared: it cannot
be stored any more, and its transaction is nowhere. -/
theorem not_noneLost_moved_tip : ¬NoneLost env losing := by
  intro none
  have taken : (tx "alice").hashed sha3∈
      accepted env (new env) losing := by decide +kernel
  obtain waits|⟨dp,hd,_⟩|stored := none losing List.prefix_rfl _ taken
  · have idle : (run env losing).waitingDisseminationTxs.entries=[] := by
      decide +kernel
    simp [WaitingTxs.containsKey,idle] at waits
  · have idle : (run env losing).mempool.ownDataProposalInPreparation=[] := by
      decide +kernel
    simp [idle] at hd
  · obtain ⟨_,metadata,_,hm,_⟩ := stores_iff.mp stored
    have nothing : (run env losing).mempool.lanes.byHashMetadata.isEmpty=true := by
      decide +kernel
    unfold getMetadataByHash at hm
    rw [Std.ExtTreeMap.isEmpty_iff.mp nothing] at hm
    simp at hm

open Mempool.SmallLanes SmallLanes in
theorem noneLost_run_undisturbed : NoneLost env storing := by
  have start : HarmlessRun env [] := by
    intro before event after he
    simp at he
  have quiet : HarmlessRun env proposing :=
    ((start.concat (.newApiTx (tx "alice")) trivial).concat (.txTaskEnded ∅ true) trivial).concat
      .newDpTimer trivial
  refine noneLost_run (quiet.concat (.dataProposalPrepared true true) ?_)
  intro dp hd
  have prepared : (run env proposing).mempool.ownDataProposalInPreparation.head?=
      some first := by decide +kernel
  obtain rfl := Option.some.inj (prepared.symm.trans hd)
  refine ⟨rfl,rfl,?_⟩
  unfold Storable
  rw [if_neg (by decide +kernel)]
  exact ⟨by decide +kernel,_,rfl⟩

end OwnLane

end TruthSeeker
