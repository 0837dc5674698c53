import TruthSeeker.Crypto.Aggregation
import TruthSeeker.Mempool.LaneChanges

namespace TruthSeeker

open Outcome

section
variable {PublicKey BlstSignature : Type} {env : MempoolEnv PublicKey BlstSignature}

namespace Mempool

open LanesStorage

/-- A vote: the lane, named after the operator that it is sent to, the hash and the size. -/
abbrev DataVote := LaneId × DataProposalHash × LaneBytesSize

def votes (messages : List OutboundMessage) : List DataVote :=
  messages.filterMap fun
    | .send validator (.dataVote vdag) => some (validator,vdag.msg)
    | _ => none

/-- The lane holds the data proposal of the vote, at the size of the vote. -/
def Backed (lanes : LanesStorage) (vote : DataVote) : Prop :=
  ∃ metadata,lanes.getMetadataByHash vote.1 vote.2.1=some metadata ∧
    metadata.cumulSize=vote.2.2

/-- Of the votes that are sent between two states, each has the property. -/
def Sent (m m' : Mempool) (Q : DataVote → Prop) : Prop :=
  ∃ out,m'.bus=m.bus++out ∧ ∀ vote ∈ votes out,Q vote

variable {m m' m'' : Mempool} {Q Q' : DataVote → Prop} {laneId : LaneId}
  {hash : DataProposalHash} {dp : DataProposal}

theorem sent_of_bus (h : m'.bus=m.bus) : Sent m m' Q :=
  ⟨[],by rw [h,List.append_nil],by simp [votes]⟩

theorem Sent.trans (h : Sent m m' Q) (h' : Sent m' m'' Q) : Sent m m'' Q := by
  obtain ⟨out,hb,hq⟩ := h
  obtain ⟨out',hb',hq'⟩ := h'
  refine ⟨out++out',by rw [hb',hb,List.append_assoc],?_⟩
  intro vote hv
  unfold votes at hv
  rw [List.filterMap_append] at hv
  exact (List.mem_append.mp hv).elim (hq vote) (hq' vote)

theorem Sent.mono (h : Sent m m' Q) (hq : ∀ vote,Q vote → Q' vote) : Sent m m' Q' := by
  obtain ⟨out,hb,ho⟩ := h
  exact ⟨out,hb,fun vote hv => hq vote (ho vote hv)⟩

section Handlers

theorem sent_sendVote {size : LaneBytesSize} (hq : Q (laneId,hash,size)) :
    Sent m (m.sendVote env laneId hash size).2 Q := by
  unfold sendVote BlstCrypto.sign
  cases toVec (hash,size) with
  | error e => exact sent_of_bus rfl
  | ok encoded =>
    refine ⟨_,rfl,?_⟩
    intro vote hv
    obtain rfl := List.mem_singleton.mp hv
    exact hq

theorem backed_getLaneSizeAt {lanes : LanesStorage} (hc : lanes.contains laneId hash=true) :
    Backed lanes (laneId,hash,lanes.getLaneSizeAt laneId hash) := by
  obtain ⟨metadata,hm⟩ := contains_eq_true.mp hc
  refine ⟨metadata,hm,?_⟩
  unfold getLaneSizeAt
  rw [hm]

/-- A vote that is sent again is backed if its data proposal is still there. -/
theorem sent_onDataProposal {receivedHash : DataProposalHash}
    (hr : m.cachedDpVotes[(laneId,receivedHash)]?=some .vote →
      m.lanes.contains laneId receivedHash=true) :
    Sent m (m.onDataProposal env laneId receivedHash dp).2 (Backed m.lanes) := by
  unfold onDataProposal
  cases hv : m.cachedDpVotes[(laneId,receivedHash)]? with
  | none => exact sent_of_bus rfl
  | some verdict =>
    cases verdict with
    | vote => exact sent_sendVote (backed_getLaneSizeAt (hr hv))
    | empty => exact sent_of_bus rfl
    | refuse => exact sent_of_bus rfl
    | process => exact sent_of_bus rfl
    | wait => exact sent_of_bus rfl

theorem sent_onHashedDataProposal :
    Sent m (m.onHashedDataProposal env laneId dp).2 (Backed m.lanes) := by
  unfold onHashedDataProposal getVerdict
  by_cases hn : dp.txs=[]
  · simp only [if_pos hn]
    exact sent_of_bus rfl
  · simp only [if_neg hn]
    by_cases hc : m.lanes.contains laneId (dp.hashed env.sha3)=true
    · simp only [if_pos hc]
      exact sent_sendVote (backed_getLaneSizeAt hc)
    · simp only [if_neg hc]
      cases m.lanes.canBePutOnTop laneId dp.parentDataProposalHash with
      | no => exact sent_of_bus rfl
      | yes => exact sent_of_bus rfl
      | fork => exact sent_of_bus rfl

@[simp] theorem bus_onPodaUpdate {podas : List ValidatorDAG} :
    (m.onPodaUpdate laneId hash podas).bus=m.bus := by
  unfold onPodaUpdate
  split <;> rfl

theorem bus_processBufferedPodas : (m.processBufferedPodas laneId hash).bus=m.bus := by
  unfold processBufferedPodas
  split
  · rfl
  · exact List.foldlRecOn (motive := fun n : Mempool => n.bus=m.bus) _ _ rfl
      fun _ hb _ _ => bus_onPodaUpdate.trans hb

theorem bus_takeBufferedChild : (m.takeBufferedChild laneId hash).2.bus=m.bus := by
  unfold takeBufferedChild
  split
  · rfl
  · split <;> rfl

theorem sent_onStoredDataProposal : Sent m (m.onStoredDataProposal env laneId hash).2
    (Backed (m.onStoredDataProposal env laneId hash).2.lanes) := by
  have quiet : ((m.processBufferedPodas laneId hash).takeBufferedChild laneId hash).2.bus=
      m.bus := bus_takeBufferedChild.trans bus_processBufferedPodas
  unfold onStoredDataProposal
  cases hc : (m.processBufferedPodas laneId hash).takeBufferedChild laneId hash with
  | mk child next =>
    rw [hc] at quiet
    cases child with
    | none => exact sent_of_bus quiet
    | some dp =>
      dsimp only
      rw [lanes_onHashedDataProposal]
      exact (sent_of_bus quiet).trans sent_onHashedDataProposal

/-- More votes for an entry do not change its size. -/
theorem Backed.signed {lanes : LanesStorage} {vote : DataVote} {vdags : List ValidatorDAG}
    (hb : Backed lanes vote) : Backed (lanes.signed laneId hash vdags) vote := by
  obtain ⟨metadata,hm,hs⟩ := hb
  unfold Backed
  rw [getMetadataByHash_signed,hm]
  split_ifs
  · exact ⟨_,rfl,(addSignature_fields hash metadata vdags).2.trans hs⟩
  · exact ⟨metadata,rfl,hs⟩

/-- The vote on a verified data proposal is sent only once it is stored. -/
theorem sent_onProcessedDataProposal (env : MempoolEnv PublicKey BlstSignature) (m : Mempool)
    (laneId : LaneId) (verdict : DataProposalVerdict) (dp : DataProposal) :
    Sent m (m.onProcessedDataProposal env laneId verdict dp).2
      (Backed (m.onProcessedDataProposal env laneId verdict dp).2.lanes) := by
  unfold onProcessedDataProposal
  cases verdict with
  | vote =>
    dsimp only
    obtain ⟨e,he⟩|⟨metadata,appends,he⟩ := storeDataProposal_cases env m.lanes laneId dp
    · rw [lanes_cacheVerdict,he]
      exact sent_of_bus rfl
    · obtain ⟨signature,sign,_⟩ := appends.signature
      have msg := BlstCrypto.msg_of_sign sign
      have stored : Backed (m.lanes.appended env.sha3 laneId metadata dp)
          (laneId,dp.hashed env.sha3,metadata.cumulSize) := by
        refine ⟨metadata,?_,rfl⟩
        rw [getMetadataByHash_appended,if_pos rfl]
      rw [lanes_cacheVerdict,he]
      dsimp only
      unfold sendVote
      rw [sign]
      dsimp only
      refine Sent.trans ⟨[.send laneId (.dataVote signature)],rfl,?_⟩ sent_onStoredDataProposal
      intro vote hv
      obtain rfl := List.mem_singleton.mp hv
      rw [msg,lanes_onStoredDataProposal]
      exact stored.signed
  | refuse => exact sent_of_bus rfl
  | empty => exact sent_of_bus rfl
  | wait => exact sent_of_bus rfl
  | process => exact sent_of_bus rfl

theorem sent_onTask (env : MempoolEnv PublicKey BlstSignature) (m : Mempool)
    (known : KnownContracts) :
    Sent m (m.onTask env known).2 (Backed (m.onTask env known).2.lanes) := by
  unfold onTask
  cases m.processingDps with
  | nil => exact sent_of_bus rfl
  | cons task tasks =>
    cases task with
    | hashing laneId receivedHash dp =>
      dsimp only
      split_ifs
      · rw [lanes_onHashedDataProposal]
        exact sent_onHashedDataProposal
      · exact sent_of_bus rfl
    | processing laneId dp =>
      dsimp only
      cases processDataProposal env.verifiers known dp with
      | error e => exact sent_of_bus rfl
      | ok result => exact sent_onProcessedDataProposal env { m with processingDps := tasks } _ _ _

theorem sent_onDataVote {vdag : ValidatorDAG} : Sent m (m.onDataVote env vdag).2 Q := by
  unfold onDataVote
  cases m.lanes.addSignatures (ownLaneId env) vdag.msg.1 [vdag] with
  | mk result lanes =>
    cases result with
    | error e => exact sent_of_bus rfl
    | ok signatures =>
      dsimp only
      split_ifs
      · exact ⟨_,rfl,by simp [votes]⟩
      · exact sent_of_bus rfl

theorem cachedDpVotes_onDataProposal {receivedHash : DataProposalHash} :
    (m.onDataProposal env laneId receivedHash dp).2.cachedDpVotes=m.cachedDpVotes := by
  unfold onDataProposal
  split <;> try rfl
  unfold sendVote
  split <;> rfl

theorem sent_retryProposals {waiting : List DataProposal}
    (hr : ∀ wp ∈ waiting,m.cachedDpVotes[(laneId,wp.hashed env.sha3)]?=some .vote →
      m.lanes.contains laneId (wp.hashed env.sha3)=true) :
    Sent m (retryProposals env laneId waiting m).2 (Backed m.lanes) := by
  induction waiting generalizing m with
  | nil => exact sent_of_bus rfl
  | cons wp wps ih =>
    have head : Sent m (m.onDataProposal env laneId (wp.hashed env.sha3) wp).2
        (Backed m.lanes) := sent_onDataProposal (hr wp List.mem_cons_self)
    have later : ∀ wp ∈ wps,m.cachedDpVotes[(laneId,wp.hashed env.sha3)]?=some .vote →
        m.lanes.contains laneId (wp.hashed env.sha3)=true :=
      fun wp hw => hr wp (List.mem_cons_of_mem _ hw)
    have lanes : (m.onDataProposal env laneId (wp.hashed env.sha3) wp).2.lanes=m.lanes :=
      lanes_onDataProposal
    have cached : (m.onDataProposal env laneId (wp.hashed env.sha3) wp).2.cachedDpVotes=
        m.cachedDpVotes := cachedDpVotes_onDataProposal
    unfold retryProposals
    by_cases hc : m.lanes.contains laneId (wp.hashed env.sha3)=true
    · rw [if_pos hc]
      exact ih later
    · rw [if_neg hc]
      cases ho : m.onDataProposal env laneId (wp.hashed env.sha3) wp with
      | mk result next =>
        rw [ho] at head lanes cached
        cases result with
        | error e => exact head
        | ok u =>
          have tail := ih (m := next) (by rw [lanes,cached]; exact later)
          rw [lanes] at tail
          exact head.trans tail

theorem sent_cleanAndUpdateLanes {previousCut : Option Cut} {cut : Cut} :
    Sent m (cleanAndUpdateLanes env previousCut cut m).2 Q := by
  induction cut generalizing m with
  | nil => exact sent_of_bus rfl
  | cons entry cut ih =>
    obtain ⟨laneId,hash,size,poda⟩ := entry
    unfold cleanAndUpdateLanes
    split_ifs
    · exact ih
    · dsimp only
      split_ifs
      · exact ih
      · split
        · exact sent_of_bus rfl
        · refine Sent.trans ⟨_,rfl,?_⟩ ih
          simp [votes]

/-- Votes are sent again for data proposals that are still stored: for the one that arrives,
and for those that waited for a reply. -/
def ResendsStored (env : MempoolEnv PublicKey BlstSignature) (m : Mempool) : Event → Prop
  | .netMessage sender (.dataProposal hash _) =>
      m.cachedDpVotes[(getLane sender,hash)]?=some .vote →
        m.lanes.contains (getLane sender) hash=true
  | .netMessage sender (.syncReply _ dp) =>
      ∀ wp ∈ m.bufferedProposals.getD sender [],wp.hashed env.sha3≠dp.hashed env.sha3 →
        m.cachedDpVotes[(sender,wp.hashed env.sha3)]?=some .vote →
          m.lanes.contains sender (wp.hashed env.sha3)=true
  | _ => True

theorem sent_onSyncReply {sender : ValidatorPublicKey} {metadata : LaneEntryMetadata}
    (hr : ResendsStored env m (.netMessage sender (.syncReply metadata dp))) :
    Sent m (m.onSyncReply env sender metadata dp).2
      (Backed (m.onSyncReply env sender metadata dp).2.lanes) := by
  rw [lanes_onSyncReply]
  unfold onSyncReply
  split_ifs
  · dsimp only
    cases hb : m.bufferedProposals[sender]? with
    | none =>
      simp only [withLanes,hb]
      exact sent_of_bus rfl
    | some waiting =>
      simp only [withLanes,hb]
      refine Sent.trans (sent_of_bus rfl) (sent_retryProposals ?_)
      intro wp hw hv
      apply contains_eq_true.mpr
      rw [getMetadataByHash_putNoVerification]
      by_cases same : wp.hashed env.sha3=dp.hashed env.sha3
      · exact ⟨metadata,if_pos (by rw [same])⟩
      · have waits : wp∈m.bufferedProposals.getD sender [] := by
          rw [Std.ExtTreeMap.getD_eq_getD_getElem?,hb]
          exact hw
        obtain ⟨kept,hk⟩ := contains_eq_true.mp (hr wp waits same hv)
        exact ⟨kept,by rw [if_neg fun hk => same (key_inj.mp hk).2,hk]⟩
  · exact sent_of_bus rfl

theorem sent_step {event : Event} (hr : ResendsStored env m event) :
    Sent m (step env m event) (Backed (step env m event).lanes) := by
  cases event with
  | netMessage sender message =>
    cases message with
    | dataProposal hash dp =>
      change Sent m (m.onDataProposal env (getLane sender) hash dp).2
        (Backed (m.onDataProposal env (getLane sender) hash dp).2.lanes)
      rw [lanes_onDataProposal]
      exact sent_onDataProposal hr
    | dataVote vdag => exact sent_onDataVote
    | podaUpdate hash signatures => exact sent_of_bus bus_onPodaUpdate
    | syncRequest fromHash toHash => exact sent_of_bus rfl
    | syncReply metadata dp => exact sent_onSyncReply hr
  | taskEnded known => exact sent_onTask env m known
  | commitConsensusProposal ccp =>
    refine Sent.trans (sent_of_bus ?_) sent_cleanAndUpdateLanes
    unfold updateLastCcp
    split
    · rfl
    · split <;> rfl
  | newDpTimer txs =>
    change Sent m (m.prepareNewDataProposal env txs) _
    unfold prepareNewDataProposal
    split_ifs <;> exact sent_of_bus rfl
  | ownDataProposalPrepared =>
    change Sent m (m.resumeNewDataProposal env).2 _
    unfold resumeNewDataProposal
    cases m.ownDataProposalInPreparation with
    | nil => exact sent_of_bus rfl
    | cons dp dps =>
      dsimp only
      split <;> exact sent_of_bus rfl

end Handlers

/-- The votes that an event makes the node send. -/
def casts (env : MempoolEnv PublicKey BlstSignature) (m : Mempool) (event : Event) :
    List DataVote := votes ((step env m event).bus.drop m.bus.length)

theorem backed_of_mem_casts {event : Event} {vote : DataVote} (hr : ResendsStored env m event)
    (hv : vote∈casts env m event) : Backed (step env m event).lanes vote := by
  obtain ⟨out,hb,ho⟩ := sent_step hr
  unfold casts at hv
  rw [hb,List.drop_left] at hv
  exact ho vote hv

/-- The node has voted for a data proposal of the lane that had this parent in its storage. -/
def Voted (env : MempoolEnv PublicKey BlstSignature) (events : List Event) (laneId : LaneId)
    (hash : DataProposalHash) (parent : Option DataProposalHash) : Prop :=
  ∃ before event after,events=before++event::after ∧
    (∃ size,(laneId,hash,size)∈casts env (run env before) event) ∧
    ∃ dp,(run env (before++[event])).lanes.getDpByHash laneId hash=some dp ∧
      dp.parentDataProposalHash=parent

theorem not_voted_nil {parent : Option DataProposalHash} :
    ¬Voted env [] laneId hash parent := by
  intro hv
  obtain ⟨before,event,after,he,_⟩ := hv
  simp at he

theorem voted_concat {events : List Event} {event : Event} {parent : Option DataProposalHash}
    (hv : Voted env (events++[event]) laneId hash parent) :
    Voted env events laneId hash parent ∨
      (∃ size,(laneId,hash,size)∈casts env (run env events) event) ∧
        ∃ dp,(step env (run env events) event).lanes.getDpByHash laneId hash=some dp ∧
          dp.parentDataProposalHash=parent := by
  obtain ⟨before,e,after,he,cast,stored⟩ := hv
  obtain rfl|⟨after,last,rfl⟩ := List.eq_nil_or_concat after
  · obtain ⟨rfl,last⟩ := List.append_inj' he rfl
    obtain ⟨rfl,_⟩ := List.cons.inj last
    rw [run_concat] at stored
    exact Or.inr ⟨cast,stored⟩
  · rw [List.concat_eq_append,← List.cons_append,← List.append_assoc] at he
    obtain ⟨rfl,_⟩ := List.append_inj' he rfl
    exact Or.inl ⟨before,e,after,rfl,cast,stored⟩

section Unforked
variable (members : Set LaneId)
variable (voted : LaneId → DataProposalHash → Option DataProposalHash → Prop)
variable (lanes : LanesStorage)

/-- A data proposal with this parent is stored in the lane, or was voted for, maybe under a
lane that is displayed alike. -/
def Known (laneId : LaneId) (hash : DataProposalHash) (parent : Option DataProposalHash) :
    Prop :=
  (∃ dp,lanes.getDpByHash laneId hash=some dp ∧ dp.parentDataProposalHash=parent) ∨
    ∃ laneId',ValidatorPublicKey.display laneId'=ValidatorPublicKey.display laneId ∧
      voted laneId' hash parent

/-- No two data proposals of a lane have one parent, and the next one is free to have the tip
as its parent. -/
structure Unforked : Prop where
  parents : ∀ laneId hash hash' parent,Known voted lanes laneId hash parent →
    Known voted lanes laneId hash' parent → hash=hash'
  tips : ∀ laneId ∈ members,∀ hash,¬Known voted lanes laneId hash (lanes.getLaneHashTip laneId)

/-- Nothing known has the new tip as its parent. -/
def Childless (laneId : LaneId) (hash : DataProposalHash) : Prop :=
  ∀ child,¬Known voted lanes laneId child (some hash)

/-- The node puts the data proposal in the lane of a member, and knows no child of it. -/
structure Extends (sha3 : Bytes → H256) (laneId : LaneId) (dp : DataProposal) : Prop where
  member : laneId∈members
  childless : Childless voted lanes laneId (dp.hashed sha3)
  acyclic : dp.parentDataProposalHash≠some (dp.hashed sha3)

/-- A data proposal that comes with a reply has a parent without another child, which is not
the tip of the lane. -/
structure FillsGap (sha3 : Bytes → H256) (laneId : LaneId) (dp : DataProposal) : Prop where
  alone : ∀ hash,Known voted lanes laneId hash dp.parentDataProposalHash → hash=dp.hashed sha3
  below : ∀ laneId' ∈ members,
    ValidatorPublicKey.display laneId'=ValidatorPublicKey.display laneId →
    dp.parentDataProposalHash≠lanes.getLaneHashTip laneId'

end Unforked

section Known
variable {members : Set LaneId} {lanes : LanesStorage} {laneId' : LaneId}
  {voted voted' : LaneId → DataProposalHash → Option DataProposalHash → Prop}
  {parent : Option DataProposalHash} {sha3 : Bytes → H256} {metadata : LaneEntryMetadata}

theorem getDpByHash_congr
    (hd : ValidatorPublicKey.display laneId=ValidatorPublicKey.display laneId') :
    lanes.getDpByHash laneId hash=lanes.getDpByHash laneId' hash := by
  unfold getDpByHash
  rw [key_inj.mpr ⟨hd,rfl⟩]

theorem Known.congr (hd : ValidatorPublicKey.display laneId=ValidatorPublicKey.display laneId')
    (hk : Known voted lanes laneId hash parent) : Known voted lanes laneId' hash parent := by
  unfold Known at hk ⊢
  rw [getDpByHash_congr hd,hd] at hk
  exact hk

theorem Known.of_putNoVerification
    (hk : Known voted (lanes.putNoVerification sha3 laneId' (metadata,dp)) laneId hash parent) :
    (ValidatorPublicKey.display laneId=ValidatorPublicKey.display laneId' ∧
      hash=dp.hashed sha3 ∧ dp.parentDataProposalHash=parent) ∨
      Known voted lanes laneId hash parent := by
  obtain ⟨stored,hs,hp⟩|old := hk
  · rw [getDpByHash_putNoVerification] at hs
    split_ifs at hs with same
    · obtain rfl := Option.some.inj hs
      obtain ⟨hd,hh⟩ := key_inj.mp same
      exact Or.inl ⟨hd,hh,hp⟩
    · exact Or.inr (Or.inl ⟨stored,hs,hp⟩)
  · exact Or.inr (Or.inr old)

theorem Known.of_popped {last : DataProposalHash} {entry : LaneEntryMetadata}
    (hk : Known voted (lanes.popped laneId' last entry) laneId hash parent) :
    Known voted lanes laneId hash parent := by
  obtain ⟨stored,hs,hp⟩|old := hk
  · rw [getDpByHash_popped] at hs
    split_ifs at hs
    exact Or.inl ⟨stored,hs,hp⟩
  · exact Or.inr old

/-- A vote for a data proposal that is stored makes nothing else known. -/
theorem Unforked.of_voted (hu : Unforked members voted lanes)
    (hv : ∀ laneId hash parent,voted' laneId hash parent → voted laneId hash parent ∨
      ∃ dp,lanes.getDpByHash laneId hash=some dp ∧ dp.parentDataProposalHash=parent) :
    Unforked members voted' lanes := by
  have same : ∀ {laneId hash parent},Known voted' lanes laneId hash parent →
      Known voted lanes laneId hash parent := by
    intro laneId hash parent hk
    obtain stored|⟨laneId',hd,hk⟩ := hk
    · exact Or.inl stored
    · obtain earlier|stored := hv _ _ _ hk
      · exact Or.inr ⟨laneId',hd,earlier⟩
      · rw [getDpByHash_congr hd] at stored
        exact Or.inl stored
  exact ⟨fun _ _ _ _ h h' => hu.parents _ _ _ _ (same h) (same h'),
    fun _ hm _ hk => hu.tips _ hm _ (same hk)⟩

theorem unforked_empty : Unforked members (fun _ _ _ => False) LanesStorage.empty := by
  have nothing : ∀ laneId hash parent,
      ¬Known (fun _ _ _ => False) LanesStorage.empty laneId hash parent := by
    intro laneId hash parent hk
    simp [Known,LanesStorage.empty,getDpByHash] at hk
  exact ⟨fun _ _ _ _ h => absurd h (nothing _ _ _),fun _ _ _ => nothing _ _ _⟩

theorem Unforked.appended {env : MempoolEnv PublicKey BlstSignature}
    (hu : Unforked members voted lanes) (ha : Appends env lanes laneId metadata dp)
    (he : Extends members voted lanes env.sha3 laneId dp)
    (apart : ∀ l ∈ members,∀ l' ∈ members,
      ValidatorPublicKey.display l=ValidatorPublicKey.display l' → l=l') :
    Unforked members voted (lanes.appended env.sha3 laneId metadata dp) := by
  have news : ∀ {l h p},Known voted (lanes.appended env.sha3 laneId metadata dp) l h p →
      (ValidatorPublicKey.display l=ValidatorPublicKey.display laneId ∧
        h=dp.hashed env.sha3 ∧ dp.parentDataProposalHash=p) ∨ Known voted lanes l h p :=
    fun hk => Known.of_putNoVerification hk
  -- The parent of the new data proposal was the tip, so it had no child.
  have fresh : ∀ {l h},ValidatorPublicKey.display l=ValidatorPublicKey.display laneId →
      ¬Known voted lanes l h dp.parentDataProposalHash := by
    intro l h hd hk
    rw [ha.onTip] at hk
    exact hu.tips _ he.member _ (hk.congr hd)
  constructor
  · intro l h h' p hk hk'
    obtain ⟨hd,rfl,rfl⟩|old := news hk
    · obtain ⟨_,rfl,_⟩|old' := news hk'
      · rfl
      · exact absurd old' (fresh hd)
    · obtain ⟨hd,rfl,rfl⟩|old' := news hk'
      · exact absurd old (fresh hd)
      · exact hu.parents _ _ _ _ old old'
  · intro l hl h hk
    unfold getLaneHashTip at hk
    rw [lanesTip_appended] at hk
    by_cases same : l=laneId
    · subst same
      rw [if_pos rfl] at hk
      obtain ⟨_,_,hp⟩|old := news hk
      · exact he.acyclic hp
      · exact he.childless _ old
    · rw [if_neg same] at hk
      obtain ⟨hd,_,_⟩|old := news hk
      · exact same (apart _ hl _ he.member hd)
      · exact hu.tips _ hl _ old

theorem Unforked.replied (hu : Unforked members voted lanes)
    (hf : FillsGap members voted lanes sha3 laneId dp) :
    Unforked members voted (lanes.putNoVerification sha3 laneId (metadata,dp)) := by
  constructor
  · intro l h h' p hk hk'
    obtain ⟨hd,rfl,rfl⟩|old := hk.of_putNoVerification
    · obtain ⟨_,rfl,_⟩|old' := hk'.of_putNoVerification
      · rfl
      · exact (hf.alone _ (old'.congr hd)).symm
    · obtain ⟨hd,rfl,rfl⟩|old' := hk'.of_putNoVerification
      · exact hf.alone _ (old.congr hd)
      · exact hu.parents _ _ _ _ old old'
  · intro l hl h hk
    obtain ⟨hd,_,hp⟩|old := hk.of_putNoVerification
    · exact hf.below _ hl hd hp
    · exact hu.tips _ hl _ old

theorem Unforked.signed {vdags : List ValidatorDAG} (hu : Unforked members voted lanes) :
    Unforked members voted (lanes.signed laneId hash vdags) := by
  have same : ∀ {l h p},Known voted (lanes.signed laneId hash vdags) l h p →
      Known voted lanes l h p := by
    intro l h p hk
    unfold Known at hk
    rw [getDpByHash_signed] at hk
    exact hk
  refine ⟨fun _ _ _ _ h h' => hu.parents _ _ _ _ (same h) (same h'),?_⟩
  intro l hl h hk
  unfold getLaneHashTip at hk
  rw [lanesTip_signed] at hk
  exact hu.tips _ hl _ (same hk)

theorem Unforked.popped {last : DataProposalHash} {entry : LaneEntryMetadata}
    (hu : Unforked members voted lanes) (ht : lanes.getLaneHashTip laneId=some last) :
    Unforked members voted (lanes.popped laneId last entry) := by
  refine ⟨fun _ _ _ _ h h' => hu.parents _ _ _ _ h.of_popped h'.of_popped,?_⟩
  intro l hl h hk
  have stays : (lanes.popped laneId last entry).getLaneHashTip l=lanes.getLaneHashTip l := by
    by_cases same : l=laneId
    · rw [same,ht]
      unfold getLaneHashTip
      rw [lanesTip_popped,if_pos rfl]
      rfl
    · unfold getLaneHashTip
      rw [lanesTip_popped,if_neg same]
  rw [stays] at hk
  exact hu.tips _ hl _ hk.of_popped

theorem Unforked.updateLaneTip {size : LaneBytesSize} (hu : Unforked members voted lanes)
    (hc : laneId∈members → Childless voted lanes laneId hash) :
    Unforked members voted (lanes.updateLaneTip laneId hash size) := by
  refine ⟨hu.parents,?_⟩
  intro l hl h hk
  unfold getLaneHashTip at hk
  rw [lanesTip_updateLaneTip] at hk
  by_cases same : l=laneId
  · subst same
    rw [if_pos rfl] at hk
    exact hc hl _ hk
  · rw [if_neg same] at hk
    exact hu.tips _ hl _ hk

end Known

/-- The members are told apart by the first bytes of their keys. Votes are sent again for what
is still stored, a new tip has no child yet, and replies only bring data proposals below the
tip, next to no other. -/
structure BackedRun (env : MempoolEnv PublicKey BlstSignature) (members : Set LaneId)
    (events : List Event) : Prop where
  apart : ∀ laneId ∈ members,∀ laneId' ∈ members,
    ValidatorPublicKey.display laneId=ValidatorPublicKey.display laneId' → laneId=laneId'
  resends : ∀ before event after,events=before++event::after →
    ResendsStored env (run env before) event
  grows : ∀ before event after,events=before++event::after →
    Meets env (fun lanes laneId _ dp => Extends members (Voted env before) lanes env.sha3 laneId dp)
      (fun lanes laneId _ dp => FillsGap members (Voted env before) lanes env.sha3 laneId dp)
      (fun _ _ _ _ => True)
      (fun lanes laneId hash =>
        laneId∈members → Childless (Voted env before) lanes laneId hash)
      (run env before) event

theorem keeps_unforked {members : Set LaneId}
    (apart : ∀ laneId ∈ members,∀ laneId' ∈ members,
      ValidatorPublicKey.display laneId=ValidatorPublicKey.display laneId' → laneId=laneId')
    (voted : LaneId → DataProposalHash → Option DataProposalHash → Prop) :
    Keeps env (fun lanes laneId _ dp => Extends members voted lanes env.sha3 laneId dp)
      (fun lanes laneId _ dp => FillsGap members voted lanes env.sha3 laneId dp)
      (fun _ _ _ _ => True)
      (fun lanes laneId hash => laneId∈members → Childless voted lanes laneId hash)
      (Unforked members voted) where
  appended _ _ _ _ _ hu ha he := hu.appended ha he apart
  replied _ _ _ _ _ hu _ hf := hu.replied hf
  signed _ _ _ _ _ hu _ := hu.signed
  popped _ _ _ _ _ hu ht _ := hu.popped ht
  tip_popped _ _ _ _ _ hc hl _ hk := hc hl _ hk.of_popped
  retipped _ _ _ _ _ hu _ hc := hu.updateLaneTip hc

theorem unforked_run {members : Set LaneId} {events : List Event}
    (h : BackedRun env members events) :
    Unforked members (Voted env events) (run env events).lanes := by
  induction events using List.reverseRecOn with
  | nil =>
    exact unforked_empty.of_voted fun _ _ _ hv => absurd hv not_voted_nil
  | append_singleton events event ih =>
    have earlier : BackedRun env members events :=
      { apart := h.apart
        resends := fun before e after he => h.resends before e (after++[event]) (by simp [he])
        grows := fun before e after he => h.grows before e (after++[event]) (by simp [he]) }
    have kept := (keeps_unforked h.apart (Voted env events)).of_step (wellKept_run env events)
      (ih earlier) (h.grows events event [] rfl)
    rw [run_concat]
    exact kept.2.of_voted fun _ _ _ hv => (voted_concat hv).imp_right And.right

/-- Each vote is for an entry that the node stores, at the size of the entry, and no two votes of
a lane are for data proposals with one parent. -/
structure BackedVotes (env : MempoolEnv PublicKey BlstSignature) (events : List Event) :
    Prop where
  stored : ∀ before event after,events=before++event::after →
    ∀ vote ∈ casts env (run env before) event,∃ metadata dp,
      (run env (before++[event])).lanes.getEntryByHash vote.1 vote.2.1=some (metadata,dp) ∧
      dp.hashed env.sha3=vote.2.1 ∧ metadata.cumulSize=vote.2.2
  single : ∀ laneId hash hash' parent,Voted env events laneId hash parent →
    Voted env events laneId hash' parent → hash=hash'

theorem backedVotes_run (env : MempoolEnv PublicKey BlstSignature) (members : Set LaneId)
    (events : List Event) (h : BackedRun env members events) : BackedVotes env events where
  stored before event after he vote hv := by
    obtain ⟨metadata,hm,hs⟩ := backed_of_mem_casts (h.resends before event after he) hv
    rw [← run_concat] at hm
    obtain ⟨dp,hd,hh⟩ := wellKept_run env (before++[event]) _ _ _ hm
    exact ⟨metadata,dp,getEntryByHash_eq_some.mpr ⟨hm,hd⟩,hh,hs⟩
  single laneId _ _ parent hv hv' :=
    (unforked_run h).parents laneId _ _ parent (Or.inr ⟨laneId,rfl,hv⟩)
      (Or.inr ⟨laneId,rfl,hv'⟩)

end Mempool

end

namespace Mempool

namespace SmallLanes

def known : KnownContracts := ∅

/-- The operator of lane 2 sends a data proposal. -/
def propose (dp : DataProposal) : Event :=
  .netMessage [2] (.dataProposal (dp.hashed sha3) dp)

def proposed : List Event := [propose first,.taskEnded known,.taskEnded known]

/-- Both data proposals are hashed before the first of them is stored. -/
def raced : List Event := [propose first,propose rival]++List.replicate 4 (.taskEnded known)

theorem not_voted_hashed {laneId : LaneId} {hash : DataProposalHash}
    {parent : Option DataProposalHash} :
    ¬Voted env [propose first,.taskEnded known] laneId hash parent := by
  have quiet : casts env (run env []) (propose first)=[] ∧
      casts env (run env [propose first]) (.taskEnded known)=[] := by decide +kernel
  intro hv
  have hv : Voted env ([propose first]++[.taskEnded known]) laneId hash parent := hv
  obtain hv|⟨⟨size,cast⟩,_⟩ := voted_concat hv
  · have hv : Voted env ([]++[propose first]) laneId hash parent := hv
    obtain hv|⟨⟨size,cast⟩,_⟩ := voted_concat hv
    · exact not_voted_nil hv
    · simp [quiet.1] at cast
  · simp [quiet.2] at cast

theorem proposed_split {before after : List Event} {event : Event}
    (he : proposed=before++event::after) :
    (before=[] ∧ event=propose first) ∨ (before=[propose first] ∧ event=.taskEnded known) ∨
      (before=[propose first,.taskEnded known] ∧ event=.taskEnded known) := by
  unfold proposed at he
  cases before with
  | nil => exact Or.inl ⟨rfl,(List.cons.inj he).1.symm⟩
  | cons e before =>
    obtain ⟨rfl,ht⟩ := List.cons.inj he
    cases before with
    | nil => exact Or.inr (Or.inl ⟨rfl,(List.cons.inj ht).1.symm⟩)
    | cons e before =>
      obtain ⟨rfl,hl⟩ := List.cons.inj ht
      cases before with
      | nil => exact Or.inr (Or.inr ⟨rfl,(List.cons.inj hl).1.symm⟩)
      | cons e before => simp at hl

end SmallLanes

open SmallLanes in
theorem backedVotes_run_honest : BackedVotes env proposed ∧
    votes (run env proposed).bus=[([2],firstHash,13)] := by
  refine ⟨backedVotes_run env {[2]} proposed ?_,by decide +kernel⟩
  constructor
  · intro laneId hl laneId' hl' _
    rw [Set.mem_singleton_iff.mp hl,Set.mem_singleton_iff.mp hl']
  · intro before event after he
    obtain ⟨rfl,rfl⟩|⟨rfl,rfl⟩|⟨rfl,rfl⟩ := proposed_split he
    · intro hv
      exact absurd hv (by decide +kernel)
    · trivial
    · trivial
  · intro before event after he
    obtain ⟨rfl,rfl⟩|⟨rfl,rfl⟩|⟨rfl,rfl⟩ := proposed_split he
    · trivial
    · have hashing : (run env [propose first]).verifiedDp env known=none := rfl
      intro laneId dp metadata hv
      rw [hashing] at hv
      simp at hv
    · have verified : (run env [propose first,.taskEnded known]).verifiedDp env known=
          some ([2],first) := by decide +kernel
      intro laneId dp metadata hv _
      rw [verified] at hv
      obtain ⟨rfl,rfl⟩ := Prod.mk.inj (Option.some.inj hv)
      refine ⟨⟨rfl,?_,by decide +kernel⟩,trivial⟩
      intro child hk
      obtain ⟨dp,stored,_⟩|⟨laneId',_,hv⟩ := hk
      · have empty : (run env [propose first,.taskEnded known]).lanes=LanesStorage.empty := rfl
        rw [empty] at stored
        simp [LanesStorage.empty,LanesStorage.getDpByHash] at stored
      · exact not_voted_hashed hv

open SmallLanes in
/-- The verdict on the second data proposal is cached although it could not be stored. When it
comes again, the node votes for it, at size zero. -/
theorem not_backedVotes_run : ¬BackedVotes env (raced++[propose rival]) ∧
    ([2],firstHash,13)∈votes (run env raced).bus ∧
    casts env (run env raced) (propose rival)=[([2],rivalHash,0)] := by
  have again : casts env (run env raced) (propose rival)=[([2],rivalHash,0)] := by
    decide +kernel
  have absent : (run env (raced++[propose rival])).lanes.getEntryByHash [2] rivalHash=none := by
    decide +kernel
  refine ⟨?_,by decide +kernel,again⟩
  intro h
  obtain ⟨metadata,dp,stored,_⟩ := h.stored raced (propose rival) [] rfl ([2],rivalHash,0)
    (by rw [again]; exact List.mem_singleton_self _)
  rw [absent] at stored
  simp at stored

end Mempool

end TruthSeeker
