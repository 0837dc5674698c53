import TruthSeeker.NodeState.Moments

namespace TruthSeeker.NodeState

/-- The state without a transaction that has timed out. -/
def Work.drop (self : Work) (txHash : TxHash) : Work :=
  match self.pending.remove txHash with
  | none => self
  | some (_,rest) => self.setPending rest

/-- The state right after a call, before the block notes anything more of it. -/
def Moment.after (env : Environment) (self : Moment) : Work :=
  let work := self.work
  match self.call with
  | .sequence parentDpHash laneId tx =>
      match handleBlobTx env work.store parentDpHash tx (txContext laneId work.block) with
      | .ok (_,store) => ⟨store,work.block⟩
      | .error _ => work.setBlock { work.block with
          failedTxs := work.block.failedTxs++[tx.hashed env.sha3] }
  | .prove proofTxHash entry => (handleBlobProof env proofTxHash work entry).1
  | .settle bth => (settleTx env bth work).1
  | .timeOut txHash => work.drop txHash
  | .reschedule unsettlableTxs =>
      ⟨unsettlableTxs.toList.foldl rescheduleTimeout work.store,work.block⟩

/-- The blocks differ at most in their notes: events, places, proofs and dropped transactions. -/
def Noted (block next : BlockUnderConstruction) : Prop :=
  ∃ events parents lanes outputs dropped,next={ block with
    transactionsEvents := events
    dpParentHashes := parents
    laneIds := lanes
    blobProofOutputs := outputs
    droppedDuplicateTxs := dropped }

namespace Noted

variable {block next last : BlockUnderConstruction}

theorem refl (block : BlockUnderConstruction) : Noted block block := ⟨_,_,_,_,_,rfl⟩

theorem trans (h : Noted block next) (hl : Noted next last) : Noted block last := by
  obtain ⟨_,_,_,_,_,rfl⟩ := h
  obtain ⟨_,_,_,_,_,rfl⟩ := hl
  exact ⟨_,_,_,_,_,rfl⟩

theorem pushEvents (txHash : TxHash) (events : List TransactionStateEvent) :
    Noted block (block.pushEvents txHash events) := ⟨_,_,_,_,_,rfl⟩

theorem locate (txHash : TxHash) (parentDpHash : DataProposalHash) (laneId : LaneId) :
    Noted block (block.locate txHash parentDpHash laneId) := ⟨_,_,_,_,_,rfl⟩

end Noted

def Call.isTimeOut : Call → Bool
  | .timeOut _ => true
  | _ => false

def Call.isSequence : Call → Bool
  | .sequence _ _ _ => true
  | _ => false

/-- What the past calls and the state must withstand for the allowed calls. -/
structure Maintained (env : Environment) (allowed : Call → Prop)
    (I : List Moment → Work → Prop) : Prop where
  note : ∀ past work block,Noted work.block block → I past work → I past (work.setBlock block)
  call : ∀ past moment,allowed moment.call → I past moment.work →
    I (past++[moment]) (moment.after env)

/-- What the past calls and the state must withstand when timeouts are cleared: those of the
height of the block are forgotten, and the block notes who has timed out. -/
structure Expiring (I : List Moment → Work → Prop) : Prop where
  forget : ∀ past work,I past work → I past ⟨{ work.store with
    timeouts := work.store.timeouts.erase work.block.blockHeight },work.block⟩
  timeOut : ∀ past work hashes,I past work →
    I past (work.setBlock { work.block with timedOutTxs := hashes })

namespace Maintained

variable {env : Environment} {allowed : Call → Prop} {I : List Moment → Work → Prop}
  {past : List Moment} {order : List TxHash}

theorem settleLoop (hm : Maintained env allowed I) (hs : ∀ bth,allowed (.settle bth)) {fuel : Nat}
    {work : Work} {toTry failed : TxHashSet} (h : I past work) :
    I (past++settleMoments env order fuel work toTry)
      (NodeState.settleLoop env fuel work toTry failed).1 := by
  induction fuel generalizing past work toTry failed with
  | zero => simpa [settleMoments,NodeState.settleLoop] using h
  | succ fuel ih =>
    unfold settleMoments NodeState.settleLoop
    cases toTry.toList.head? with
    | none => simpa using h
    | some bth =>
      have step := hm.call past ⟨order,work,.settle bth⟩ (hs bth) h
      have settled : I (past++[⟨order,work,.settle bth⟩]) (settleTx env bth work).1 := step
      dsimp only
      rw [List.append_cons]
      generalize settleTx env bth work=result at settled ⊢
      obtain ⟨next,tried⟩ := result
      cases tried with
      | none => exact ih settled
      | some tried => exact ih settled

theorem settleAndReschedule (hm : Maintained env allowed I) (hs : ∀ bth,allowed (.settle bth))
    (hr : ∀ hashes,allowed (.reschedule hashes)) {work : Work} {toTry : TxHashSet}
    (h : I past work) :
    I (past++doneMoments env order work toTry)
      (NodeState.settleAndReschedule env work toTry) := by
  have settled : I (past++settleMoments env order (settleBound work toTry) work toTry)
      (settleTxsUntilDone env work toTry).1 := hm.settleLoop hs h
  have last := hm.call _ ⟨order,(settleTxsUntilDone env work toTry).1,
    .reschedule (settleTxsUntilDone env work toTry).2⟩ (hr _) settled
  rw [List.append_assoc] at last
  exact last

theorem clearTimeout (hm : Maintained env allowed I) (hs : ∀ bth,allowed (.settle bth))
    (hr : ∀ hashes,allowed (.reschedule hashes)) {state : Work × List TxHash} {hash : TxHash}
    (ht : allowed (.timeOut hash)) (h : I past state.1) :
    I (past++timeOutMoments env order state hash)
      (NodeState.clearTimeout env state hash).1 := by
  have step := hm.call past ⟨order,state.1,.timeOut hash⟩ ht h
  have dropped : I (past++[⟨order,state.1,.timeOut hash⟩]) (state.1.drop hash) := step
  unfold timeOutMoments NodeState.clearTimeout
  unfold Work.drop at dropped
  cases hg : state.1.pending.remove hash with
  | none =>
    rw [hg] at dropped
    exact dropped
  | some removed =>
    obtain ⟨tx,rest⟩ := removed
    rw [hg] at dropped
    dsimp only at dropped ⊢
    have noted : I (past++[⟨order,state.1,.timeOut hash⟩])
        (((state.1.setPending rest).pushEvent tx.hash .timedOut).locate tx) :=
      hm.note _ (state.1.setPending rest) _
        ((Noted.pushEvents tx.hash [.timedOut]).trans (Noted.locate _ _ _)) dropped
    rw [List.append_cons]
    exact hm.settleAndReschedule hs hr noted

theorem clearTimeouts (hm : Maintained env allowed I) (hs : ∀ bth,allowed (.settle bth))
    (hr : ∀ hashes,allowed (.reschedule hashes)) (ht : ∀ hash,allowed (.timeOut hash))
    (hx : Expiring I) {work : Work} (h : I past work) :
    I (past++clearMoments env order work) (NodeState.clearTimeouts env work) := by
  let started : Work := ⟨{ work.store with
    timeouts := work.store.timeouts.erase work.block.blockHeight },work.block⟩
  let due := work.store.timeouts.getD work.block.blockHeight []
  have start : I past started := hx.forget past work h
  have cleared : I (past++clearMoments env order work)
      (due.foldl (NodeState.clearTimeout env) (started,[])).1 :=
    Trace.foldl_of_past (I := fun past (state : Work × List TxHash) => I past state.1) start
      fun _ _ _ _ hp => hm.clearTimeout hs hr (ht _) hp
  exact hx.timeOut _ _ _ cleared

theorem handleProvenBlobs (hm : Maintained env allowed I)
    (hp : ∀ proofTxHash entry,allowed (.prove proofTxHash entry)) {txId : TxId}
    {state : Work × TxHashSet} {entry : BlobProofOutput} (h : I past state.1) :
    I (past++[⟨order,state.1,.prove txId.txHash entry⟩])
      (NodeState.handleProvenBlobs env txId state entry).1 := by
  have step := hm.call past ⟨order,state.1,.prove txId.txHash entry⟩ (hp _ entry) h
  have proven : I (past++[⟨order,state.1,.prove txId.txHash entry⟩])
    (handleBlobProof env txId.txHash state.1 entry).1 := step
  unfold NodeState.handleProvenBlobs
  dsimp only
  split
  · exact proven
  · exact proven
  · exact hm.note _ _ _ (Noted.pushEvents _ _) proven

theorem handleTransaction (hm : Maintained env allowed I)
    (ha : ∀ call : Call,call.isTimeOut=false → allowed call) {laneId : LaneId} {txId : TxId}
    {work : Work} {data : TransactionData}
    (hd : ∀ tx,data=.blob tx → txId.txHash=tx.hashed env.sha3) (h : I past work) :
    I (past++handleMoments env order laneId txId work data)
      (NodeState.handleTransaction env laneId txId work data) := by
  cases data with
  | proof tx => simpa [handleMoments,NodeState.handleTransaction] using h
  | verifiedProof proofTx =>
    let proving := Trace.outputs (NodeState.handleProvenBlobs env txId)
      (fun state entry => [Moment.mk order state.1 (.prove txId.txHash entry)]) (work,∅)
      proofTx.provenBlobs
    let proved := proofTx.provenBlobs.foldl (NodeState.handleProvenBlobs env txId) (work,∅)
    have proven : I (past++proving) proved.1 :=
      Trace.foldl_of_past (I := fun past (state : Work × TxHashSet) => I past state.1) h
        fun _ _ _ _ hp => hm.handleProvenBlobs (fun _ _ => ha _ rfl) hp
    have done : I (past++proving++doneMoments env order proved.1 proved.2)
        (NodeState.settleAndReschedule env proved.1 proved.2) :=
      hm.settleAndReschedule (fun _ => ha _ rfl) (fun _ => ha _ rfl) proven
    rw [List.append_assoc] at done
    exact done
  | blob tx =>
    have step := hm.call past ⟨order,work,.sequence txId.parentHash laneId tx⟩ (ha _ rfl) h
    unfold Moment.after at step
    unfold handleMoments NodeState.handleTransaction
    dsimp only at step ⊢
    rw [List.append_cons]
    cases hh : handleBlobTx env work.store txId.parentHash tx (txContext laneId work.block) with
    | error e =>
      simp only [hh] at step
      have noted := hm.note _ _ _ (Noted.pushEvents (tx.hashed env.sha3)
        [.error ("Failed to handle blob transaction: "++env.debug.error e)]) step
      rw [List.append_nil,hd tx rfl]
      exact noted
    | ok handled =>
      obtain ⟨handled,store⟩ := handled
      simp only [hh] at step
      cases handled with
      | shouldSettle txHash =>
        exact hm.settleAndReschedule (fun _ => ha _ rfl) (fun _ => ha _ rfl) step
      | duplicate =>
        rw [List.append_nil]
        exact hm.note _ _ _ ⟨_,_,_,_,_,rfl⟩ step
      | ok =>
        rw [List.append_nil]
        exact hm.note _ _ _ (Noted.pushEvents _ _) step

/-- Across a block, from the state in which its timeouts have been cleared. -/
theorem handleTxs (hm : Maintained env allowed I)
    (ha : ∀ call : Call,call.isTimeOut=false → allowed call)
    {entries : List (LaneId × TxId × Transaction)} {state : List TxHash × Work}
    (he : ∀ entry ∈ entries,∀ tx,entry.2.2.transactionData=.blob tx →
      entry.2.1.txHash=tx.hashed env.sha3) (h : I past state.2) :
    I (past++Trace.outputs (txStep env) (txMoments env) state entries)
      (entries.foldl (handleTx env) state.2) := by
  have handled : I (past++Trace.outputs (txStep env) (txMoments env) state entries)
      (entries.foldl (txStep env) state).2 := by
    refine Trace.foldl_of_past (I := fun past (state : List TxHash × Work) => I past state.2) h ?_
    intro past state entry hmem hp
    have located : I past (locateTx state.2 entry) :=
      hm.note _ _ _ (Noted.locate _ _ _) hp
    exact hm.handleTransaction ha (he entry hmem) located
  rwa [foldl_txStep] at handled

end Maintained

section Blocks
variable (env : Environment)

/-- The state and the block after all transactions of a block. -/
def blockWork (store : NodeStateStore) (signedBlock : SignedBlock) : Work :=
  (signedBlock.iterTxsWithId env.sha3).foldl (handleTx env)
    (clearTimeouts env (beginBlock env store signedBlock))

end Blocks

section Runs
variable {env : Environment} {I : List Moment → Work → Prop} {past : List Moment}

theorem handleSignedBlock_of_inOrder {store : NodeStateStore} {signedBlock : SignedBlock}
    (ho : InOrder store signedBlock) : handleSignedBlock env store signedBlock=
      ((blockWork env store signedBlock).store,.ok { (blockWork env store signedBlock).block with
        txs := (signedBlock.iterTxsWithId env.sha3).map Prod.snd }) := by
  have accepted : ¬(store.currentHeight+1≠signedBlock.height ∧
      ¬(store.currentHeight=0 ∧ signedBlock.height=0)) := by
    unfold InOrder at ho
    tauto
  unfold handleSignedBlock
  rw [if_neg accepted]
  rfl

theorem inOrder_of_ok {store : NodeStateStore} {signedBlock : SignedBlock} {block : Block}
    (h : (handleSignedBlock env store signedBlock).2=.ok block) : InOrder store signedBlock := by
  unfold handleSignedBlock at h
  unfold InOrder
  split at h
  · cases h
  · tauto

theorem txHash_of_mem {signedBlock : SignedBlock} {entry : LaneId × TxId × Transaction}
    (h : entry∈signedBlock.iterTxsWithId env.sha3) {tx : BlobTransaction}
    (hd : entry.2.2.transactionData=.blob tx) : entry.2.1.txHash=tx.hashed env.sha3 := by
  simp only [SignedBlock.iterTxsWithId,SignedBlock.txsWithId,List.mem_flatMap,List.mem_map] at h
  obtain ⟨_,_,_,_,⟨version,data⟩,_,rfl⟩ := h
  subst hd
  rfl

/-- What is maintained by all calls holds at the end of a block if it holds at its beginning. -/
theorem Maintained.blockWork (hm : Maintained env (fun _ => True) I) (hx : Expiring I)
    {order : List TxHash} {store : NodeStateStore} {signedBlock : SignedBlock}
    (ho : InOrder store signedBlock) (h : I past (beginBlock env store signedBlock)) :
    I (past++blockMoments env (order,store) signedBlock)
      (NodeState.blockWork env store signedBlock) := by
  let cleared := clearedBlock env (order,store) signedBlock
  let handling := Trace.outputs (txStep env) (txMoments env) cleared
    (signedBlock.iterTxsWithId env.sha3)
  have clears : I (past++clearMoments env order (beginBlock env store signedBlock)) cleared.2 :=
    hm.clearTimeouts (fun _ => trivial) (fun _ => trivial) (fun _ => trivial) hx h
  have handled : I (past++clearMoments env order (beginBlock env store signedBlock)++handling)
      (NodeState.blockWork env store signedBlock) :=
    hm.handleTxs (fun _ _ => trivial) (fun _ he _ hd => txHash_of_mem he hd) clears
  unfold blockMoments
  rw [if_pos ho]
  rw [List.append_assoc] at handled
  exact handled

/-- What is maintained holds before every call. -/
theorem Maintained.splits {allowed : Call → Prop} (hm : Maintained env allowed I) :
    Maintained env allowed fun past work => I past work ∧
      ∀ before moment after,past=before++moment::after → I before moment.work where
  note past work block hn h := ⟨hm.note past work block hn h.1,h.2⟩
  call := by
    intro past moment ha h
    refine ⟨hm.call past moment ha h.1,?_⟩
    intro before found after eq
    obtain ⟨mid,rfl,tail⟩|⟨mid,rfl,tail⟩ := List.append_eq_append_iff.mp eq
    · cases mid with
      | nil =>
        obtain ⟨rfl,_⟩ := List.cons.inj tail
        rw [List.append_nil]
        exact h.1
      | cons first mid => simp at tail
    · cases mid with
      | nil =>
        obtain ⟨rfl,_⟩ := List.cons.inj tail
        rw [List.append_nil] at h
        exact h.1
      | cons first mid =>
        obtain ⟨rfl,_⟩ := List.cons.inj tail
        exact h.2 before found mid rfl

/-- What is maintained in all blocks holds at the end of a run. -/
theorem Maintained.run (hm : Maintained env (fun _ => True) I) (hx : Expiring I)
    (hb : ∀ past work signedBlock,InOrder work.store signedBlock → I past work →
      I past (beginBlock env work.store signedBlock))
    (hs : ∀ block,I [] ⟨NodeStateStore.default,block⟩) (signedBlocks : List SignedBlock) :
    ∃ block,I (moments env signedBlocks)
      ⟨handleSignedBlocks env NodeStateStore.default signedBlocks,block⟩ := by
  have ran : ∀ state : List TxHash × NodeStateStore,∀ past block,I past ⟨state.2,block⟩ →
      ∃ block,I (past++Trace.outputs (blockStep env) (blockMoments env) state signedBlocks)
        ⟨(signedBlocks.foldl (blockStep env) state).2,block⟩ := by
    intro state past block h
    refine Trace.foldl_of_past
      (I := fun past (state : List TxHash × NodeStateStore) => ∃ block,I past ⟨state.2,block⟩)
      ⟨block,h⟩ ?_
    intro past state signedBlock _ hp
    obtain ⟨block,hp⟩ := hp
    by_cases ho : InOrder state.2 signedBlock
    · have next : I (past++blockMoments env state signedBlock)
          (NodeState.blockWork env state.2 signedBlock) :=
        hm.blockWork hx ho (hb past _ signedBlock ho hp)
      refine ⟨(NodeState.blockWork env state.2 signedBlock).block,?_⟩
      rw [blockStep_eq,handleSignedBlock_of_inOrder ho]
      exact next
    · refine ⟨block,?_⟩
      unfold blockMoments blockStep
      rw [if_neg ho,if_neg ho,List.append_nil]
      exact hp
  let none : SignedBlock := ⟨[],⟨0,"",[],[],0⟩,default⟩
  obtain ⟨block,h⟩ := ran ([],NodeStateStore.default) [] (startBlock env none) (hs _)
  rw [foldl_blockStep] at h
  exact ⟨block,h⟩

/-- What is maintained in all blocks holds before every call of a run. -/
theorem Maintained.before (hm : Maintained env (fun _ => True) I) (hx : Expiring I)
    (hb : ∀ past work signedBlock,InOrder work.store signedBlock → I past work →
      I past (beginBlock env work.store signedBlock))
    (hs : ∀ block,I [] ⟨NodeStateStore.default,block⟩) {signedBlocks : List SignedBlock}
    {earlier later : List Moment} {moment : Moment}
    (h : moments env signedBlocks=earlier++moment::later) : I earlier moment.work := by
  have expiring : Expiring fun past work => I past work ∧
      ∀ before moment after,past=before++moment::after → I before moment.work :=
    ⟨fun past work hp => ⟨hx.forget past work hp.1,hp.2⟩,
      fun past work hashes hp => ⟨hx.timeOut past work hashes hp.1,hp.2⟩⟩
  obtain ⟨_,_,splits⟩ := hm.splits.run expiring
    (fun past work signedBlock ho hp => ⟨hb past work signedBlock ho hp.1,hp.2⟩)
    (fun block => ⟨hs block,by simp⟩) signedBlocks
  exact splits earlier moment later h

end Runs

end TruthSeeker.NodeState
