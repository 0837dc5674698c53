import TruthSeeker.NodeState.TimeoutInstances

namespace TruthSeeker

/-- The parent data proposal and the lane of a transaction. -/
abbrev Origin := DataProposalHash × LaneId

def UnsettledBlobTransaction.origin (self : UnsettledBlobTransaction) : Origin :=
  (self.parentDpHash,self.txContext.laneId)

/-- What the block tells of the transaction in its two maps. -/
def BlockUnderConstruction.Tells (self : BlockUnderConstruction) (txHash : TxHash)
    (origin : Origin) : Prop :=
  self.dpParentHashes[txHash]?=some origin.1 ∧ self.laneIds[txHash]?=some origin.2

theorem Trace.exists_of_mem_outputs {σ α β : Type} {step : σ → α → σ} {out : σ → α → List β}
    {s : σ} {as : List α} {b : β} (hb : b∈Trace.outputs step out s as) :
    ∃ before a after,as=before++a::after ∧ b∈out (before.foldl step s) a := by
  induction as generalizing s with
  | nil => cases hb
  | cons a as ih =>
    obtain here|later := List.mem_append.mp hb
    · exact ⟨[],a,as,rfl,here⟩
    · obtain ⟨before,c,after,rfl,out⟩ := ih later
      exact ⟨a::before,c,after,rfl,out⟩

namespace NodeState

open OrderedTxMap

section Definitions
variable (env : Environment)

/-- The instance that the call settles, or removes because its time is over. -/
def Moment.finished (self : Moment) : Option UnsettledBlobTransaction :=
  match self.call with
  | .settle bth =>
      (self.work.pending.remove bth).bind fun removed =>
        if (tryToSettleBlobTx env self.work.store bth removed.1).2.isOk then some removed.1
        else none
  | .timeOut hash => (self.work.pending.remove hash).map Prod.fst
  | _ => none

/-- The block tells the origin of each instance that is finished while it is handled. -/
def TellsOrigins (store : NodeStateStore) (signedBlock : SignedBlock) (block : Block) : Prop :=
  ∀ moment ∈ blockMoments env ([],store) signedBlock,∀ tx ∈ moment.finished env,
    block.Tells tx.hash tx.origin

/-- The transaction has the origin of all finished instances of its hash. -/
def SameOrigin (past : List Moment) (entry : LaneId × TxId × Transaction) : Prop :=
  ∀ moment ∈ past,∀ tx ∈ moment.finished env,entry.2.1.txHash=tx.hash →
    (entry.2.1.parentHash,entry.1)=tx.origin

/-- From the state and the past calls of a block on, no transaction comes from elsewhere than a
finished instance of its hash. -/
def ComeBack : List Moment → List TxHash × Work → List (LaneId × TxId × Transaction) → Prop
  | _,_,[] => True
  | past,state,entry::entries => SameOrigin env past entry ∧
      ComeBack (past++txMoments env state entry) (txStep env state entry) entries

/-- Transactions come back to a block only from the origin of what the block has finished. -/
def ComesBack (store : NodeStateStore) (signedBlock : SignedBlock) : Prop :=
  ComeBack env (clearMoments env [] (beginBlock env store signedBlock))
    (clearedBlock env ([],store) signedBlock) (signedBlock.iterTxsWithId env.sha3)

instance (block : BlockUnderConstruction) (txHash : TxHash) (origin : Origin) :
    Decidable (block.Tells txHash origin) := inferInstanceAs (Decidable (_ ∧ _))

instance (store : NodeStateStore) (signedBlock : SignedBlock) :
    DecidablePred (TellsOrigins env store signedBlock) :=
  fun block => inferInstanceAs (Decidable (∀ moment ∈ blockMoments env ([],store) signedBlock,
    ∀ tx ∈ moment.finished env,block.Tells tx.hash tx.origin))

instance (past : List Moment) : DecidablePred (SameOrigin env past) :=
  fun entry => inferInstanceAs (Decidable (∀ moment ∈ past,∀ tx ∈ moment.finished env,
    entry.2.1.txHash=tx.hash → (entry.2.1.parentHash,entry.1)=tx.origin))

instance decidableComeBack : (past : List Moment) → (state : List TxHash × Work) →
    DecidablePred (ComeBack env past state)
  | _,_,[] => inferInstanceAs (Decidable True)
  | past,state,entry::entries =>
      have := decidableComeBack (past++txMoments env state entry) (txStep env state entry) entries
      inferInstanceAs (Decidable (SameOrigin env past entry ∧
        ComeBack env (past++txMoments env state entry) (txStep env state entry) entries))

instance (store : NodeStateStore) (signedBlock : SignedBlock) :
    Decidable (ComesBack env store signedBlock) :=
  inferInstanceAs (Decidable (ComeBack env _ _ _))

end Definitions

section Tells
variable {block : BlockUnderConstruction} {hash txHash : TxHash} {origin : Origin}

theorem tells_locate (block : BlockUnderConstruction) (hash : TxHash) (origin : Origin) :
    (block.locate hash origin.1 origin.2).Tells hash origin :=
  ⟨Std.ExtTreeMap.getElem?_insert_self,Std.ExtTreeMap.getElem?_insert_self⟩

/-- Another transaction is located, or the same one at the same place. -/
theorem tells_of_locate (h : block.Tells hash origin) {parentDpHash : DataProposalHash}
    {laneId : LaneId} (hp : txHash=hash → (parentDpHash,laneId)=origin) :
    (block.locate txHash parentDpHash laneId).Tells hash origin := by
  by_cases same : txHash=hash
  · subst same
    obtain rfl := hp rfl
    exact tells_locate block txHash (parentDpHash,laneId)
  · have apart : compare txHash hash≠.eq := fun eq => same (Std.LawfulEqOrd.eq_of_compare eq)
    unfold BlockUnderConstruction.Tells BlockUnderConstruction.locate
    rw [Std.ExtTreeMap.getElem?_insert,if_neg apart,Std.ExtTreeMap.getElem?_insert,if_neg apart]
    exact h

end Tells

/-- The block tells the origin of the transaction, and a pending instance of it has the same. -/
structure Told (hash : TxHash) (origin : Origin) (work : Work) : Prop where
  tells : work.block.Tells hash origin
  pending : All (fun tx => tx.hash=hash → tx.origin=origin) work.pending

theorem origin_pushProof (tx : UnsettledBlobTransaction) (index : BlobIndex)
    (proof : ProgramId × HyleOutput) : (tx.pushProof index proof).origin=tx.origin := by
  unfold UnsettledBlobTransaction.pushProof
  split <;> rfl

namespace Told

variable {env : Environment} {hash : TxHash} {origin : Origin} {work : Work}

theorem locate {tx : UnsettledBlobTransaction} (h : Told hash origin work)
    (ht : tx.hash=hash → tx.origin=origin) : Told hash origin (work.locate tx) :=
  ⟨tells_of_locate h.tells ht,h.pending⟩

theorem remove {removed : TxHash} {tx : UnsettledBlobTransaction} {rest : OrderedTxMap}
    (h : Told hash origin work) (hr : work.pending.remove removed=some (tx,rest)) :
    (tx.hash=hash → tx.origin=origin) ∧ Told hash origin (work.setPending rest) := by
  obtain ⟨same,gone⟩ := h.pending.remove hr
  exact ⟨same,h.tells,gone⟩

theorem pushProof (h : Told hash origin work) (txHash : TxHash) (index : BlobIndex)
    (proof : ProgramId × HyleOutput) :
    Told hash origin (work.setPending (work.pending.pushProof txHash index proof)) := by
  refine ⟨h.tells,h.pending.pushProof ?_⟩
  intro tx _ same hash
  rw [tx.hash_pushProof] at hash
  rw [origin_pushProof]
  exact same hash

theorem takeQueue {pending : OrderedTxMap} {contract : ContractName} {fuel : Nat}
    {P : UnsettledBlobTransaction → Prop} (h : All P pending) :
    ∀ tx ∈ (takeQueue contract fuel pending).1,P tx := by
  induction fuel generalizing pending with
  | zero => simp [OrderedTxMap.takeQueue]
  | succ fuel ih =>
    unfold OrderedTxMap.takeQueue
    split
    · simp
    · next tx next hr =>
      obtain ⟨removed,_,hn⟩ := Option.bind_eq_some_iff.mp hr
      obtain ⟨first,rest⟩ := h.remove hn
      intro other hm
      obtain rfl|later := List.mem_cons.mp hm
      · exact first
      · exact ih rest other later

/-- The deleted contract takes pending transactions with it, which are located. -/
theorem deleteContract {bth : TxHash} {contractName : ContractName}
    (h : Told hash origin work) :
    Told hash origin (NodeState.deleteContract bth work contractName) := by
  have taken : Told hash origin (work.setPending (work.pending.removeAll contractName).2) :=
    ⟨h.tells,h.pending.takeQueue⟩
  have located : Told hash origin ((work.pending.removeAll contractName).1.foldl
      (fun work tx => (work.pushEvent tx.hash .timedOut).locate tx)
      (work.setPending (work.pending.removeAll contractName).2)) := by
    refine List.foldlRecOn (motive := fun next : Work => Told hash origin next) _ _ taken ?_
    intro next hn tx hm
    have noted : Told hash origin (next.pushEvent tx.hash .timedOut) := ⟨hn.tells,hn.pending⟩
    exact noted.locate (Told.takeQueue h.pending tx hm)
  exact ⟨located.tells,located.pending⟩

theorem applyContractChange {bth : TxHash} {change : ContractName × ModifiedContractData}
    (h : Told hash origin work) :
    Told hash origin (NodeState.applyContractChange bth work change) := by
  obtain ⟨contractName,contract,⟨programId,state,verifier,timeoutWindow⟩,sideEffects⟩ := change
  cases contract with
  | some contract =>
    refine ⟨?_,h.pending⟩
    show (noteContract bth (¬work.store.contracts.contains contractName) contractName contract
      ⟨programId,state,verifier,timeoutWindow⟩ sideEffects work.block).Tells hash origin
    generalize decide (¬work.store.contracts.contains contractName=true)=isNew
    cases isNew <;> cases programId <;> cases state <;> cases timeoutWindow <;> exact h.tells
  | none => exact h.deleteContract

theorem settleContracts {bth : TxHash} {tx : UnsettledBlobTransaction} {result : SettlementResult}
    (h : Told hash origin work) :
    Told hash origin (NodeState.settleContracts bth tx result work) := by
  have recorded : (tx.blobs.toList.foldl (recordBlob bth tx.identity result.blobProofOutputIndices)
      (work.pushEvent bth .settled).block).Tells hash origin := by
    refine List.foldlRecOn
      (motive := fun block : BlockUnderConstruction => block.Tells hash origin) _ _ h.tells ?_
    intro block hb entry _
    unfold recordBlob
    dsimp only
    split
    · split <;> exact hb
    · exact hb
  have start : Told hash origin (work.setBlock (tx.blobs.toList.foldl
    (recordBlob bth tx.identity result.blobProofOutputIndices)
    (work.pushEvent bth .settled).block)) := ⟨recorded,h.pending⟩
  exact List.foldlRecOn (motive := fun next : Work => Told hash origin next) _ _ start
    fun _ hn _ _ => hn.applyContractChange

theorem onSettledBlobTx {bth : TxHash} {tx : UnsettledBlobTransaction}
    {result : Except Unit SettlementResult} (h : Told hash origin work) :
    Told hash origin (NodeState.onSettledBlobTx bth tx work result).1 := by
  cases result with
  | error e => exact ⟨h.tells,h.pending⟩
  | ok result =>
    have forced : Told hash origin
        (forceOutputs bth tx (NodeState.settleContracts bth tx result work)).1 := by
      refine List.foldlRecOn (motive := fun state : Work × TxHashSet => Told hash origin state.1)
        _ _ h.settleContracts ?_
      intro state hs update _
      unfold applyNuke
      dsimp only
      split
      · exact hs
      · have pushed := hs.pushProof update.1 update.2.2.index update.2
        exact ⟨pushed.tells,pushed.pending⟩
    exact ⟨forced.tells,forced.pending⟩

theorem settleTx {bth : TxHash} (h : Told hash origin work) :
    Told hash origin (NodeState.settleTx env bth work).1 := by
  unfold NodeState.settleTx
  cases hr : work.pending.remove bth with
  | none =>
    have located : (work.block.locate bth (work.block.dpParentHashes.getD bth "")
        (work.block.laneIds.getD bth [])).Tells hash origin := by
      refine tells_of_locate h.tells ?_
      rintro rfl
      simp [Std.ExtTreeMap.getD_eq_getD_getElem?,h.tells.1,h.tells.2]
    exact ⟨located,h.pending⟩
  | some removed =>
    obtain ⟨tx,rest⟩ := removed
    obtain ⟨same,gone⟩ := h.remove hr
    have located := h.locate same
    dsimp only
    cases (tryToSettleBlobTx env work.store bth tx).2 with
    | error e => exact ⟨located.tells,located.pending⟩
    | ok result =>
      have start : Told hash origin ((work.setBlock ((work.locate tx).block.pushEvents bth
        (tryToSettleBlobTx env work.store bth tx).1)).setPending rest) :=
        ⟨located.tells,gone.pending⟩
      exact start.onSettledBlobTx

theorem settleLoop {fuel : Nat} {toTry failed : TxHashSet} (h : Told hash origin work) :
    Told hash origin (NodeState.settleLoop env fuel work toTry failed).1 := by
  induction fuel generalizing work toTry failed with
  | zero => exact h
  | succ fuel ih =>
    unfold NodeState.settleLoop
    cases toTry.toList.head? with
    | none => exact h
    | some bth =>
      have step : Told hash origin (NodeState.settleTx env bth work).1 := h.settleTx
      dsimp only
      cases (NodeState.settleTx env bth work).2 with
      | none => exact ih step
      | some next => exact ih step

theorem reschedule (h : Told hash origin work) (hashes : List TxHash) :
    Told hash origin ⟨hashes.foldl rescheduleTimeout work.store,work.block⟩ := by
  refine ⟨h.tells,?_⟩
  show All _ (hashes.foldl rescheduleTimeout work.store).unsettledTransactions
  rw [unsettledTransactions_reschedule]
  exact h.pending

theorem settleAndReschedule {toTry : TxHashSet} (h : Told hash origin work) :
    Told hash origin (NodeState.settleAndReschedule env work toTry) := by
  have settled : Told hash origin (settleTxsUntilDone env work toTry).1 := h.settleLoop
  exact settled.reschedule _

theorem clearTimeout {state : Work × List TxHash} {txHash : TxHash}
    (h : Told hash origin state.1) :
    Told hash origin (NodeState.clearTimeout env state txHash).1 := by
  unfold NodeState.clearTimeout
  split
  · exact h
  · next tx rest hr =>
    obtain ⟨same,gone⟩ := h.remove hr
    have noted : Told hash origin ((state.1.setPending rest).pushEvent tx.hash .timedOut) :=
      ⟨gone.tells,gone.pending⟩
    exact (noted.locate same).settleAndReschedule

theorem handleBlobProof {proofTxHash : TxHash} {entry : BlobProofOutput}
    (h : Told hash origin work) :
    Told hash origin (NodeState.handleBlobProof env proofTxHash work entry).1 := by
  unfold NodeState.handleBlobProof
  dsimp only
  cases hg : work.pending.getForSettlement entry.blobTxHash with
  | none => exact h
  | some found =>
    obtain ⟨unsettledTx,shouldSettle⟩ := found
    obtain ⟨tx,hf,hp⟩ := Option.map_eq_some_iff.mp hg
    obtain ⟨rfl,_⟩ := Prod.mk.inj hp
    have located := h.locate (h.pending _ tx hf)
    dsimp only
    split
    · exact located
    · split
      · exact located
      · have pushed := located.pushProof entry.blobTxHash entry.hyleOutput.index
          (entry.programId,entry.hyleOutput)
        exact ⟨pushed.tells,pushed.pending⟩

theorem handleProvenBlobs {txId : TxId} {state : Work × TxHashSet} {entry : BlobProofOutput}
    (h : Told hash origin state.1) :
    Told hash origin (NodeState.handleProvenBlobs env txId state entry).1 := by
  have step : Told hash origin (NodeState.handleBlobProof env txId.txHash state.1 entry).1 :=
    h.handleBlobProof
  unfold NodeState.handleProvenBlobs
  dsimp only
  split
  · exact step
  · exact step
  · exact ⟨step.tells,step.pending⟩

/-- A transaction that is sequenced again has the same origin. -/
theorem handleTransaction {laneId : LaneId} {txId : TxId} {data : TransactionData}
    (hd : ∀ tx,data=.blob tx → txId.txHash=tx.hashed env.sha3)
    (ho : txId.txHash=hash → (txId.parentHash,laneId)=origin) (h : Told hash origin work) :
    Told hash origin (NodeState.handleTransaction env laneId txId work data) := by
  cases data with
  | proof tx => exact h
  | verifiedProof proofTx =>
    have proven : Told hash origin
        (proofTx.provenBlobs.foldl (NodeState.handleProvenBlobs env txId) (work,∅)).1 :=
      List.foldlRecOn (motive := fun state : Work × TxHashSet => Told hash origin state.1) _ _ h
        fun _ hs _ _ => hs.handleProvenBlobs
    exact proven.settleAndReschedule
  | blob tx =>
    unfold NodeState.handleTransaction
    dsimp only
    cases hh : handleBlobTx env work.store txId.parentHash tx (txContext laneId work.block) with
    | error e => exact ⟨h.tells,h.pending⟩
    | ok result =>
      obtain ⟨handled,store⟩ := result
      have added : Told hash origin ⟨store,work.block⟩ := by
        refine ⟨h.tells,?_⟩
        show All _ store.unsettledTransactions
        obtain ⟨_,same|⟨isNext,added⟩⟩ := pending_handleBlobTx hh
        · rw [same]
          exact h.pending
        · refine h.pending.add ?_ added
          intro same
          exact ho ((hd tx rfl).trans same)
      cases handled with
      | shouldSettle txHash => exact added.settleAndReschedule
      | duplicate => exact ⟨added.tells,added.pending⟩
      | ok => exact ⟨added.tells,added.pending⟩

theorem handleTx {entry : LaneId × TxId × Transaction}
    (hd : ∀ tx,entry.2.2.transactionData=.blob tx → entry.2.1.txHash=tx.hashed env.sha3)
    (ho : entry.2.1.txHash=hash → (entry.2.1.parentHash,entry.1)=origin)
    (h : Told hash origin work) : Told hash origin (NodeState.handleTx env work entry) := by
  have located : Told hash origin (locateTx work entry) :=
    ⟨tells_of_locate h.tells ho,h.pending⟩
  exact located.handleTransaction hd ho

end Told

section Finished
variable {env : Environment} {order : List TxHash} {work : Work} {moment : Moment}
  {tx : UnsettledBlobTransaction}

/-- What is gone does not have another origin. -/
theorem told_of_removed {hash : TxHash} {rest : OrderedTxMap}
    (hr : work.pending.remove hash=some (tx,rest)) :
    Told tx.hash tx.origin ((work.locate tx).setPending rest) := by
  have same := work.pending.hash_eq hash tx (remove_eq_some hr).1
  refine ⟨tells_locate work.block tx.hash tx.origin,?_⟩
  intro other found hf eq
  have gone := hf
  rw [Work.pending_setPending,(remove_eq_some hr).2,Std.ExtTreeMap.getElem?_erase] at gone
  split_ifs at gone with apart
  have absent : other=hash := by
    rw [← OrderedTxMap.hash_eq _ other found hf,eq,same]
  exact absurd (absent ▸ Std.ReflOrd.compare_self) apart

theorem told_of_settleTx {bth : TxHash}
    (h : tx∈(Moment.mk order work (.settle bth)).finished env) :
    Told tx.hash tx.origin (settleTx env bth work).1 := by
  obtain ⟨⟨found,rest⟩,hr,hi⟩ := Option.bind_eq_some_iff.mp h
  split_ifs at hi with ok
  obtain rfl : found=tx := Option.some.inj hi
  have removed := told_of_removed hr
  unfold settleTx
  rw [hr]
  dsimp only at ok ⊢
  cases ht : (tryToSettleBlobTx env work.store bth found).2 with
  | error e =>
    rw [ht] at ok
    cases ok
  | ok result =>
    have start : Told found.hash found.origin ((work.setBlock
      ((work.locate found).block.pushEvents bth
        (tryToSettleBlobTx env work.store bth found).1)).setPending rest) :=
      ⟨removed.tells,removed.pending⟩
    exact start.onSettledBlobTx

theorem told_of_settleMoments {fuel : Nat} {toTry failed : TxHashSet}
    (hm : moment∈settleMoments env order fuel work toTry) (h : tx∈moment.finished env) :
    Told tx.hash tx.origin (settleLoop env fuel work toTry failed).1 := by
  induction fuel generalizing work toTry failed with
  | zero => simp [settleMoments] at hm
  | succ fuel ih =>
    unfold settleMoments at hm
    unfold settleLoop
    cases hh : toTry.toList.head? with
    | none => simp [hh] at hm
    | some bth =>
      simp only [hh] at hm ⊢
      have first : moment=⟨order,work,.settle bth⟩ →
          Told tx.hash tx.origin (settleTx env bth work).1 := by
        rintro rfl
        exact told_of_settleTx h
      generalize settleTx env bth work=result at hm first ⊢
      obtain ⟨next,tried⟩ := result
      cases tried with
      | none =>
        obtain same|later := List.mem_cons.mp hm
        · exact (first same).settleLoop
        · exact ih later
      | some tried =>
        obtain same|later := List.mem_cons.mp hm
        · exact (first same).settleLoop
        · exact ih later

theorem told_of_doneMoments {toTry : TxHashSet} (hm : moment∈doneMoments env order work toTry)
    (h : tx∈moment.finished env) :
    Told tx.hash tx.origin (settleAndReschedule env work toTry) := by
  obtain settling|last := List.mem_append.mp hm
  · have settled : Told tx.hash tx.origin (settleTxsUntilDone env work toTry).1 :=
      told_of_settleMoments settling h
    exact settled.reschedule _
  · obtain rfl := List.mem_singleton.mp last
    cases h

theorem told_of_timeOutMoments {state : Work × List TxHash} {hash : TxHash}
    (hm : moment∈timeOutMoments env order state hash) (h : tx∈moment.finished env) :
    Told tx.hash tx.origin (clearTimeout env state hash).1 := by
  unfold timeOutMoments at hm
  unfold clearTimeout
  obtain rfl|later := List.mem_cons.mp hm
  · obtain ⟨⟨found,rest⟩,hr,rfl⟩ := Option.map_eq_some_iff.mp h
    rw [hr]
    have removed := told_of_removed hr
    have start : Told found.hash found.origin
      (((state.1.setPending rest).pushEvent found.hash .timedOut).locate found) :=
      ⟨tells_locate _ found.hash found.origin,removed.pending⟩
    exact start.settleAndReschedule
  · cases hr : state.1.pending.remove hash with
    | none =>
      rw [hr] at later
      cases later
    | some removed =>
      obtain ⟨removed,rest⟩ := removed
      rw [hr] at later
      exact told_of_doneMoments later h

theorem told_of_clearMoments (hm : moment∈clearMoments env order work)
    (h : tx∈moment.finished env) : Told tx.hash tx.origin (clearTimeouts env work) := by
  obtain ⟨before,hash,after,eq,out⟩ := Trace.exists_of_mem_outputs hm
  have cleared : Told tx.hash tx.origin ((work.store.timeouts.getD work.block.blockHeight
      []).foldl (clearTimeout env) (⟨{ work.store with
        timeouts := work.store.timeouts.erase work.block.blockHeight },work.block⟩,[])).1 := by
    rw [eq,List.foldl_append,List.foldl_cons]
    exact List.foldlRecOn
      (motive := fun state : Work × List TxHash => Told tx.hash tx.origin state.1) _ _
      (told_of_timeOutMoments out h) fun _ hs _ _ => hs.clearTimeout
  exact ⟨cleared.tells,cleared.pending⟩

theorem told_of_handleMoments {laneId : LaneId} {txId : TxId} {data : TransactionData}
    (hm : moment∈handleMoments env order laneId txId work data) (h : tx∈moment.finished env) :
    Told tx.hash tx.origin (handleTransaction env laneId txId work data) := by
  cases data with
  | proof proofTx => cases hm
  | verifiedProof proofTx =>
    obtain proving|settling := List.mem_append.mp hm
    · obtain ⟨_,entry,_,_,out⟩ := Trace.exists_of_mem_outputs proving
      obtain rfl := List.mem_singleton.mp out
      cases h
    · exact told_of_doneMoments settling h
  | blob blobTx =>
    unfold handleMoments at hm
    unfold handleTransaction
    obtain rfl|later := List.mem_cons.mp hm
    · cases h
    · dsimp only at later ⊢
      split at later
      · next txHash store hh =>
        rw [hh]
        exact told_of_doneMoments later h
      · cases later

theorem comeBack_append {past : List Moment} {state : List TxHash × Work}
    {entries later : List (LaneId × TxId × Transaction)} :
    ComeBack env past state (entries++later) ↔ ComeBack env past state entries ∧
      ComeBack env (past++Trace.outputs (txStep env) (txMoments env) state entries)
        (entries.foldl (txStep env) state) later := by
  induction entries generalizing past state with
  | nil => simp [ComeBack,Trace.outputs]
  | cons entry entries ih => simp [ComeBack,Trace.outputs,ih,and_assoc]

/-- If transactions come back only from where they were, the block tells to its end the origin of
a finished instance. -/
theorem Told.comeBack {past : List Moment} {state : List TxHash × Work}
    {entries : List (LaneId × TxId × Transaction)}
    (hd : ∀ entry ∈ entries,∀ tx,entry.2.2.transactionData=.blob tx →
      entry.2.1.txHash=tx.hashed env.sha3)
    (hc : ComeBack env past state entries) (hm : moment∈past) (hf : tx∈moment.finished env)
    (h : Told tx.hash tx.origin state.2) :
    Told tx.hash tx.origin (entries.foldl (txStep env) state).2 := by
  induction entries generalizing past state with
  | nil => exact h
  | cons entry entries ih =>
    obtain ⟨same,rest⟩ := hc
    have next : Told tx.hash tx.origin (txStep env state entry).2 :=
      h.handleTx (hd entry List.mem_cons_self) (same moment hm tx hf)
    exact ih (fun e he => hd e (List.mem_cons_of_mem _ he)) rest (List.mem_append_left _ hm) next

/-- Some call of the past has finished an instance of the hash. -/
def Finished (env : Environment) (past : List Moment) (hash : TxHash) : Prop :=
  ∃ moment ∈ past,∃ tx ∈ moment.finished env,tx.hash=hash

theorem finished_of_settleTx {bth : TxHash} {rest : OrderedTxMap}
    {result : Except Unit SettlementResult} (hr : work.pending.remove bth=some (tx,rest))
    (ht : (tryToSettleBlobTx env work.store bth tx).2=.ok result) :
    tx∈(Moment.mk order work (.settle bth)).finished env ∧ tx.hash=bth := by
  refine ⟨Option.bind_eq_some_iff.mpr ⟨(tx,rest),hr,?_⟩,
    work.pending.hash_eq bth tx (remove_eq_some hr).1⟩
  rw [ht]
  rfl

/-- What a call adds to the lists of the block has been finished by it, or refused. -/
theorem listed_after {hash : TxHash} :
    (hash∈(moment.after env).block.successfulTxs → hash∈moment.work.block.successfulTxs ∨
      Finished env [moment] hash) ∧
    (hash∈(moment.after env).block.failedTxs → hash∈moment.work.block.failedTxs ∨
      Finished env [moment] hash ∨ hash∈moment.refused env) := by
  have same : ∀ block,outcomes block=outcomes moment.work.block →
      (hash∈block.successfulTxs → hash∈moment.work.block.successfulTxs ∨
        Finished env [moment] hash) ∧
      (hash∈block.failedTxs → hash∈moment.work.block.failedTxs ∨
        Finished env [moment] hash ∨ hash∈moment.refused env) := by
    intro block eq
    have successful : block.successfulTxs=moment.work.block.successfulTxs :=
      congrArg Outcomes.successful eq
    have failed : block.failedTxs=moment.work.block.failedTxs := congrArg Outcomes.failed eq
    rw [successful,failed]
    exact ⟨Or.inl,Or.inl⟩
  obtain ⟨order,work,call⟩ := moment
  cases call with
  | sequence parentDpHash laneId blobTx =>
    unfold Moment.after Moment.refused
    dsimp only
    cases hh : handleBlobTx env work.store parentDpHash blobTx (txContext laneId work.block) with
    | ok result => exact ⟨Or.inl,Or.inl⟩
    | error e =>
      refine ⟨Or.inl,?_⟩
      intro h
      obtain old|new := List.mem_append.mp h
      · exact Or.inl old
      · exact Or.inr (Or.inr new)
  | prove proofTxHash entry => exact same _ (outcomes_noted (noted_handleBlobProof _ _ _ _))
  | timeOut txHash =>
    apply same
    show outcomes (work.drop txHash).block=_
    unfold Work.drop
    split <;> rfl
  | reschedule hashes => exact ⟨Or.inl,Or.inl⟩
  | settle bth =>
    obtain ⟨block,noted,eq⟩|⟨tx,rest,result,hr,ht,eq⟩ := settleTx_outcome env bth work
    · apply same
      show outcomes (settleTx env bth work).1.block=_
      rw [eq]
      exact outcomes_noted noted
    · have after : (Moment.mk order work (.settle bth)).after env=
          (onSettledBlobTx bth tx (settling env bth work tx rest) result).1 := congrArg Prod.fst eq
      rw [after]
      obtain ⟨done,hash_eq⟩ := @finished_of_settleTx env order work tx bth rest result hr ht
      have finished : hash=bth → Finished env [⟨order,work,.settle bth⟩] hash :=
        fun same => ⟨_,List.mem_singleton_self _,tx,done,hash_eq.trans same.symm⟩
      let next := (onSettledBlobTx bth tx (settling env bth work tx rest) result).1.block
      obtain more|more := @outcomes_onSettledBlobTx bth tx (settling env bth work tx rest) result
      · have successful : next.successfulTxs=work.block.successfulTxs++[bth] :=
          congrArg Outcomes.successful more
        have failed : next.failedTxs=work.block.failedTxs := congrArg Outcomes.failed more
        rw [successful,failed,List.mem_append,List.mem_singleton]
        exact ⟨Or.imp_right finished,Or.inl⟩
      · have successful : next.successfulTxs=work.block.successfulTxs :=
          congrArg Outcomes.successful more
        have failed : next.failedTxs=work.block.failedTxs++[bth] :=
          congrArg Outcomes.failed more
        rw [successful,failed,List.mem_append,List.mem_singleton]
        exact ⟨Or.inl,Or.imp_right fun same => Or.inl (finished same)⟩

theorem maintained_finished (env : Environment) :
    Maintained env (fun _ => True) fun past work => ∀ hash,
      (hash∈work.block.successfulTxs → Finished env past hash) ∧
      (hash∈work.block.failedTxs → Finished env past hash ∨
        hash∈past.flatMap (Moment.refused env)) where
  note := by
    intro past work block noted h hash
    have successful : block.successfulTxs=work.block.successfulTxs :=
      congrArg Outcomes.successful (outcomes_noted noted)
    have failed : block.failedTxs=work.block.failedTxs :=
      congrArg Outcomes.failed (outcomes_noted noted)
    show (hash∈block.successfulTxs → _) ∧ (hash∈block.failedTxs → _)
    rw [successful,failed]
    exact h hash
  call := by
    intro past moment _ h hash
    have grows : ∀ {part : List Moment},part⊆past++[moment] → Finished env part hash →
        Finished env (past++[moment]) hash :=
      fun sub ⟨m,hm,found⟩ => ⟨m,sub hm,found⟩
    have before := @grows past (List.subset_append_left _ _)
    have now := @grows [moment] (List.subset_append_right _ _)
    obtain ⟨successful,failed⟩ := @listed_after env moment hash
    rw [List.flatMap_append,List.flatMap_singleton,List.mem_append]
    constructor
    · intro hm
      obtain old|new := successful hm
      · exact before ((h hash).1 old)
      · exact now new
    · intro hm
      obtain old|new|refused := failed hm
      · obtain done|refused := (h hash).2 old
        · exact Or.inl (before done)
        · exact Or.inr (Or.inl refused)
      · exact Or.inl (now new)
      · exact Or.inr (Or.inr refused)

/-- All that a block lists as successful or timed out has been finished while it was handled, and
what it lists as failed has been finished or refused. -/
theorem finished_of_listed {store : NodeStateStore} {signedBlock : SignedBlock} {block : Block}
    (h : (handleSignedBlock env store signedBlock).2=.ok block) (hash : TxHash) :
    (hash∈block.successfulTxs ∨ hash∈block.timedOutTxs →
      Finished env (blockMoments env ([],store) signedBlock) hash) ∧
    (hash∈block.failedTxs → Finished env (blockMoments env ([],store) signedBlock) hash ∨
      hash∈refusedTxs env store signedBlock) := by
  have ho := inOrder_of_ok h
  rw [handleSignedBlock_of_inOrder ho] at h
  obtain rfl := Except.ok.inj h
  have lists := @Maintained.blockWork env _ [] (maintained_finished env)
    ⟨fun _ _ h => h,fun _ _ _ h => h⟩ [] store signedBlock ho
    fun _ => ⟨fun hm => absurd hm List.not_mem_nil,fun hm => absurd hm List.not_mem_nil⟩
  rw [List.nil_append] at lists
  refine ⟨?_,(lists hash).2⟩
  rintro (successful|timedOut)
  · exact (lists hash).1 successful
  · have out : hash∈(blockWork env store signedBlock).block.timedOutTxs := timedOut
    rw [@timedOutTxs_blockWork env [] store signedBlock ho] at out
    obtain ⟨moment,hm,hout⟩ := List.mem_flatMap.mp out
    unfold Moment.timedOut at hout
    split at hout
    · next found hc =>
      split_ifs at hout with pending
      · obtain rfl := List.mem_singleton.mp hout
        obtain ⟨tx,ht⟩ := Option.isSome_iff_exists.mp pending
        obtain ⟨rest,hr⟩ := exists_remove ht
        refine ⟨moment,hm,tx,?_,moment.work.pending.hash_eq _ tx ht⟩
        unfold Moment.finished
        rw [hc]
        exact Option.map_eq_some_iff.mpr ⟨(tx,rest),hr,rfl⟩
      · cases hout
    · cases hout

/-- If transactions come back to a block only from the origin of what the block has finished, it
tells the origins of all that settles or times out. -/
theorem tellsOrigins (env : Environment) (store : NodeStateStore) (signedBlock : SignedBlock)
    (block : Block) (h : (handleSignedBlock env store signedBlock).2=.ok block)
    (hc : ComesBack env store signedBlock) : TellsOrigins env store signedBlock block := by
  have ho := inOrder_of_ok h
  rw [handleSignedBlock_of_inOrder ho] at h
  obtain rfl := Except.ok.inj h
  have identified : ∀ entry ∈ signedBlock.iterTxsWithId env.sha3,∀ tx,
      entry.2.2.transactionData=.blob tx → entry.2.1.txHash=tx.hashed env.sha3 :=
    fun _ he _ => txHash_of_mem he
  intro moment hm tx hf
  unfold blockMoments at hm
  rw [if_pos ho] at hm
  have told : Told tx.hash tx.origin (blockWork env store signedBlock) := by
    unfold blockWork
    unfold ComesBack at hc
    generalize signedBlock.iterTxsWithId env.sha3=entries at hm hc identified
    have same : (entries.foldl (txStep env) (clearedBlock env ([],store) signedBlock)).2=
        entries.foldl (handleTx env) (clearTimeouts env (beginBlock env store signedBlock)) :=
      foldl_txStep
    rw [← same]
    obtain clearing|handling := List.mem_append.mp hm
    · exact Told.comeBack identified hc clearing hf (told_of_clearMoments clearing hf)
    · obtain ⟨before,entry,after,rfl,out⟩ := Trace.exists_of_mem_outputs handling
      obtain ⟨_,_,rest⟩ := comeBack_append.mp hc
      rw [List.foldl_append,List.foldl_cons]
      refine Told.comeBack (fun e he => identified e (by simp [he])) rest
        (List.mem_append_right _ out) hf ?_
      exact told_of_handleMoments out hf
  exact told.tells

end Finished

namespace Resequenced

open TwoContracts (proofTx)

/-- The transaction settles, and the same one comes again on the lane. -/
def returningBlock (laneId : LaneId) : SignedBlock :=
  ⟨[([1],[⟨none,[⟨1,.blob registerTx⟩,⟨1,.blob tx⟩,proofTx "foo" entry]⟩]),
    (laneId,[⟨none,[⟨1,.blob tx⟩]⟩])],⟨1,"",[],[],0⟩,default⟩

def emittedBlock (laneId : LaneId) : Option Block :=
  (handleSignedBlock env NodeStateStore.default (returningBlock laneId)).2.toOption

theorem emittedBlock_eq_some {laneId : LaneId} {block : Block}
    (h : emittedBlock laneId=some block) :
    (handleSignedBlock env NodeStateStore.default (returningBlock laneId)).2=.ok block := by
  unfold emittedBlock at h
  cases he : (handleSignedBlock env NodeStateStore.default (returningBlock laneId)).2 with
  | error e =>
    rw [he] at h
    cases h
  | ok emitted =>
    rw [he] at h
    exact congrArg Except.ok (Option.some.inj h)

/-- The transaction comes back on its lane, or on another one. -/
theorem runs_returningBlock :
    (ComesBack env NodeStateStore.default (returningBlock [1]) ∧
      ∃ block ∈ emittedBlock [1],hash∈block.successfulTxs) ∧
    ∃ block ∈ emittedBlock [2],hash∈block.successfulTxs ∧ block.laneIds[hash]?=some [2] ∧
      ¬TellsOrigins env NodeStateStore.default (returningBlock [2]) block := by
  decide +kernel

end Resequenced

open Resequenced in
theorem tellsOrigins_returningBlock : ∃ block,
    (handleSignedBlock env NodeStateStore.default (returningBlock [1])).2=.ok block ∧
    Resequenced.hash∈block.successfulTxs ∧
    TellsOrigins env NodeStateStore.default (returningBlock [1]) block := by
  obtain ⟨comesBack,block,emitted,listed⟩ := runs_returningBlock.1
  have ok := emittedBlock_eq_some emitted
  exact ⟨block,ok,listed,tellsOrigins env _ _ block ok comesBack⟩

open Resequenced in
/-- The settled instance was on the first lane, and the block tells the lane of the other one. -/
theorem not_tellsOrigins : ∃ block,
    (handleSignedBlock env NodeStateStore.default (returningBlock [2])).2=.ok block ∧
    Resequenced.hash∈block.successfulTxs ∧ block.laneIds[Resequenced.hash]?=some [2] ∧
    ¬TellsOrigins env NodeStateStore.default (returningBlock [2]) block := by
  obtain ⟨block,emitted,listed,lane,told⟩ := runs_returningBlock.2
  exact ⟨block,emittedBlock_eq_some emitted,listed,lane,told⟩

end NodeState

end TruthSeeker
