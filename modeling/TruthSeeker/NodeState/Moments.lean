import TruthSeeker.Framework.Trace
import TruthSeeker.NodeState.Provenance

namespace TruthSeeker.NodeState

open OrderedTxMap

/-- The calls of a run that add a transaction or a proof, that take a transaction out, or that
give timeouts to those which could not be settled. -/
inductive Call where
  | sequence (parentDpHash : DataProposalHash) (laneId : LaneId) (tx : BlobTransaction)
  | prove (proofTxHash : TxHash) (entry : BlobProofOutput)
  | settle (bth : TxHash)
  | timeOut (txHash : TxHash)
  | reschedule (unsettlableTxs : TxHashSet)

/-- A call, with the state before it and the transactions in the order in which they were
last sequenced. -/
structure Moment where
  order : List TxHash
  work : Work
  call : Call

/-- A transaction that is sequenced again takes its last place. -/
def resequence (order : List TxHash) (hash : TxHash) : List TxHash :=
  order.filter (fun h => h≠hash)++[hash]

section Calls
variable (env : Environment) (order : List TxHash)

/-- The rounds of `settleLoop`. -/
def settleMoments : Nat → Work → TxHashSet → List Moment
  | 0,_,_ => []
  | fuel+1,work,toTry =>
      match toTry.toList.head? with
      | none => []
      | some bth =>
          ⟨order,work,.settle bth⟩::
            match settleTx env bth work with
            | (work,none) => settleMoments fuel work (toTry.erase bth)
            | (work,some next) => settleMoments fuel work (toTry.erase bth ∪ next)

/-- The calls of `settleAndReschedule`. -/
def doneMoments (work : Work) (toTry : TxHashSet) : List Moment :=
  let (last,unsettlableTxs) := settleTxsUntilDone env work toTry
  settleMoments env order (settleBound work toTry) work toTry++
    [⟨order,last,.reschedule unsettlableTxs⟩]

/-- The removal of a transaction that has timed out, and what is settled upon it. -/
def timeOutMoments (state : Work × List TxHash) (txHash : TxHash) : List Moment :=
  ⟨order,state.1,.timeOut txHash⟩::
    match state.1.pending.remove txHash with
    | none => []
    | some (tx,rest) =>
        doneMoments env order (((state.1.setPending rest).pushEvent tx.hash .timedOut).locate tx)
          (nextTxs rest tx)

def clearMoments (work : Work) : List Moment :=
  let height := work.block.blockHeight
  let timeouts := work.store.timeouts
  let started : Work := ⟨{ work.store with timeouts := timeouts.erase height },work.block⟩
  Trace.outputs (clearTimeout env) (timeOutMoments env order) (started,[])
    (timeouts.getD height [])

/-- A blob transaction comes last in the order unless it is refused or a duplicate. -/
def orderAfter (laneId : LaneId) (txId : TxId) (work : Work) : TransactionData → List TxHash
  | .blob tx =>
      match handleBlobTx env work.store txId.parentHash tx (txContext laneId work.block) with
      | .ok (.duplicate,_) => order
      | .ok _ => resequence order (tx.hashed env.sha3)
      | .error _ => order
  | _ => order

def handleMoments (laneId : LaneId) (txId : TxId) (work : Work) : TransactionData → List Moment
  | .blob tx =>
      ⟨order,work,.sequence txId.parentHash laneId tx⟩::
        match handleBlobTx env work.store txId.parentHash tx (txContext laneId work.block) with
        | .ok (.shouldSettle txHash,store) =>
            doneMoments env (orderAfter env order laneId txId work (.blob tx))
              ⟨store,work.block⟩ (.ofList [txHash])
        | _ => []
  | .proof _ => []
  | .verifiedProof proofTx =>
      let proven := proofTx.provenBlobs.foldl (handleProvenBlobs env txId) (work,∅)
      Trace.outputs (handleProvenBlobs env txId)
          (fun state entry => [⟨order,state.1,.prove txId.txHash entry⟩]) (work,∅)
          proofTx.provenBlobs++
        doneMoments env order proven.1 proven.2

end Calls

section Runs
variable (env : Environment)

def locateTx (work : Work) (entry : LaneId × TxId × Transaction) : Work :=
  work.setBlock (work.block.locate entry.2.1.txHash entry.2.1.parentHash entry.1)

def txMoments (state : List TxHash × Work) (entry : LaneId × TxId × Transaction) : List Moment :=
  handleMoments env state.1 entry.1 entry.2.1 (locateTx state.2 entry)
    entry.2.2.transactionData

def txStep (state : List TxHash × Work) (entry : LaneId × TxId × Transaction) :
    List TxHash × Work :=
  (orderAfter env state.1 entry.1 entry.2.1 (locateTx state.2 entry) entry.2.2.transactionData,
    handleTx env state.2 entry)

/-- Whether the block comes at its height. -/
def InOrder (store : NodeStateStore) (signedBlock : SignedBlock) : Prop :=
  store.currentHeight+1=signedBlock.height ∨ store.currentHeight=0 ∧ signedBlock.height=0

instance (store : NodeStateStore) (signedBlock : SignedBlock) :
    Decidable (InOrder store signedBlock) :=
  inferInstanceAs (Decidable (_ ∨ _))

/-- The state in which the transactions of a block are handled. -/
def clearedBlock (state : List TxHash × NodeStateStore) (signedBlock : SignedBlock) :
    List TxHash × Work :=
  (state.1,clearTimeouts env (beginBlock env state.2 signedBlock))

def blockMoments (state : List TxHash × NodeStateStore) (signedBlock : SignedBlock) :
    List Moment :=
  if InOrder state.2 signedBlock then
    clearMoments env state.1 (beginBlock env state.2 signedBlock)++
      Trace.outputs (txStep env) (txMoments env) (clearedBlock env state signedBlock)
        (signedBlock.iterTxsWithId env.sha3)
  else []

def blockStep (state : List TxHash × NodeStateStore) (signedBlock : SignedBlock) :
    List TxHash × NodeStateStore :=
  if InOrder state.2 signedBlock then
    let last := (signedBlock.iterTxsWithId env.sha3).foldl (txStep env)
      (clearedBlock env state signedBlock)
    (last.1,last.2.store)
  else state

/-- All calls of the run of the blocks from the initial state. -/
def moments (signedBlocks : List SignedBlock) : List Moment :=
  Trace.outputs (blockStep env) (blockMoments env) ([],NodeStateStore.default) signedBlocks

end Runs

section Refine
variable {env : Environment}

theorem foldl_txStep {entries : List (LaneId × TxId × Transaction)}
    {state : List TxHash × Work} :
    (entries.foldl (txStep env) state).2=entries.foldl (handleTx env) state.2 := by
  induction entries generalizing state with
  | nil => rfl
  | cons entry entries ih => exact ih

/-- The recorded run goes through the states of the code. -/
theorem blockStep_eq {state : List TxHash × NodeStateStore} {signedBlock : SignedBlock} :
    (blockStep env state signedBlock).2=(handleSignedBlock env state.2 signedBlock).1 := by
  have refused : ¬InOrder state.2 signedBlock ↔
      state.2.currentHeight+1≠signedBlock.height ∧
        ¬(state.2.currentHeight=0 ∧ signedBlock.height=0) := not_or
  unfold blockStep handleSignedBlock
  by_cases ho : InOrder state.2 signedBlock
  · rw [if_pos ho,if_neg fun hn => refused.mpr hn ho]
    exact congrArg Work.store foldl_txStep
  · rw [if_neg ho,if_pos (refused.mp ho)]

theorem foldl_blockStep {signedBlocks : List SignedBlock} {state : List TxHash × NodeStateStore} :
    (signedBlocks.foldl (blockStep env) state).2=handleSignedBlocks env state.2 signedBlocks := by
  induction signedBlocks generalizing state with
  | nil => rfl
  | cons signedBlock signedBlocks ih =>
    have tail := @ih (blockStep env state signedBlock)
    rw [blockStep_eq] at tail
    exact tail

end Refine

/-- What the order of the transactions and the pending ones must withstand. -/
structure Preserved (env : Environment) (seen : TransactionData → Prop)
    (I : List TxHash → OrderedTxMap → Prop) : Prop where
  start : I [] OrderedTxMap.empty
  sequence : ∀ order pending store parentDpHash tx txContext next isNext,seen (.blob tx) →
    HyleTld.validateHyleContractBlobs env tx=.ok () → I order pending →
    pending.add (unsettledBlobTransaction env store parentDpHash tx txContext)=
      some (next,isNext) → I (resequence order (tx.hashed env.sha3)) next
  prove : ∀ order pending proofTx entry tx,seen (.verifiedProof proofTx) →
    entry∈proofTx.provenBlobs → pending.map[entry.blobTxHash]?=some tx →
    verifyHyleOutput env tx entry.hyleOutput=.ok () → I order pending →
    I order (pending.pushProof entry.blobTxHash entry.hyleOutput.index
      (entry.programId,entry.hyleOutput))
  settle : ∀ order (work : Work) bth,I order work.pending →
    I order (settleTx env bth work).1.pending
  timeOut : ∀ order pending hash tx rest,pending.remove hash=some (tx,rest) → I order pending →
    I order rest

namespace Preserved

variable {env : Environment} {seen : TransactionData → Prop}
  {I : List TxHash → OrderedTxMap → Prop} {order : List TxHash}

/-- An invariant of the pending transactions, whatever their order. -/
theorem ofInvariant {P : UnsettledBlobTransaction → Prop} (hi : Invariant env seen P) :
    Preserved env seen fun _ pending => All P pending where
  start := all_empty
  sequence _ _ store parentDpHash tx txContext _ _ ht hv h ha :=
    h.add (hi.sequenced store parentDpHash tx txContext ht hv) ha
  prove := by
    intro order pending proofTx entry tx ht he hf hv h
    apply h.pushProof
    intro found hm hP
    obtain rfl := Option.some.inj (hf.symm.trans hm)
    exact hi.proven proofTx entry tx ht he (pending.hash_eq _ tx hf).symm hv hP
  settle _ _ _ h := all_settleTx hi h
  timeOut _ _ _ _ _ hr h := (h.remove hr).2

theorem settleMoments (hp : Preserved env seen I) {fuel : Nat} {work : Work}
    {toTry : TxHashSet} (h : I order work.pending) :
    ∀ moment ∈ NodeState.settleMoments env order fuel work toTry,
      I moment.order moment.work.pending := by
  induction fuel generalizing work toTry with
  | zero => simp [NodeState.settleMoments]
  | succ fuel ih =>
    unfold NodeState.settleMoments
    cases toTry.toList.head? with
    | none => simp
    | some bth =>
      have step : I order (settleTx env bth work).1.pending := hp.settle order work bth h
      intro moment hm
      obtain rfl|tail := List.mem_cons.mp hm
      · exact h
      · split at tail
        · next work _ hs =>
          rw [hs] at step
          exact ih step moment tail
        · next work _ next hs =>
          rw [hs] at step
          exact ih step moment tail

theorem settleLoop (hp : Preserved env seen I) {fuel : Nat} {work : Work}
    {toTry failed : TxHashSet} (h : I order work.pending) :
    I order (NodeState.settleLoop env fuel work toTry failed).1.pending := by
  induction fuel generalizing work toTry failed with
  | zero => exact h
  | succ fuel ih =>
    unfold NodeState.settleLoop
    cases toTry.toList.head? with
    | none => exact h
    | some bth =>
      have step : I order (settleTx env bth work).1.pending := hp.settle order work bth h
      dsimp only
      cases (settleTx env bth work).2 with
      | none => exact ih step
      | some next => exact ih step

theorem doneMoments (hp : Preserved env seen I) {work : Work} {toTry : TxHashSet}
    (h : I order work.pending) :
    ∀ moment ∈ NodeState.doneMoments env order work toTry,
      I moment.order moment.work.pending := by
  intro moment hm
  obtain rounds|last := List.mem_append.mp hm
  · exact hp.settleMoments h moment rounds
  · obtain rfl := List.mem_singleton.mp last
    exact hp.settleLoop h

theorem settleAndReschedule (hp : Preserved env seen I) {work : Work} {toTry : TxHashSet}
    (h : I order work.pending) :
    I order (NodeState.settleAndReschedule env work toTry).pending := by
  have settled : I order (settleTxsUntilDone env work toTry).1.pending := hp.settleLoop h
  exact List.foldlRecOn
    (motive := fun store : NodeStateStore => I order store.unsettledTransactions) _ _ settled
    fun _ hs _ _ => by rw [rescheduleTimeout_unsettledTransactions]; exact hs

theorem clearTimeout (hp : Preserved env seen I) {state : Work × List TxHash} {hash : TxHash}
    (h : I order state.1.pending) : I order (NodeState.clearTimeout env state hash).1.pending := by
  unfold NodeState.clearTimeout
  split
  · exact h
  · next tx rest hr =>
    have gone : I order rest := hp.timeOut order _ hash tx rest hr h
    exact hp.settleAndReschedule gone

theorem timeOutMoments (hp : Preserved env seen I) {state : Work × List TxHash} {hash : TxHash}
    (h : I order state.1.pending) :
    ∀ moment ∈ NodeState.timeOutMoments env order state hash,
      I moment.order moment.work.pending := by
  intro moment hm
  obtain rfl|tail := List.mem_cons.mp hm
  · exact h
  · split at tail
    · simp at tail
    · next tx rest hr =>
      have gone : I order rest := hp.timeOut order _ hash tx rest hr h
      exact hp.doneMoments gone moment tail

theorem clearTimeouts (hp : Preserved env seen I) {work : Work} (h : I order work.pending) :
    I order (NodeState.clearTimeouts env work).pending :=
  List.foldlRecOn (motive := fun state : Work × List TxHash => I order state.1.pending) _ _ h
    fun _ hs _ _ => hp.clearTimeout hs

theorem clearMoments (hp : Preserved env seen I) {work : Work} (h : I order work.pending) :
    ∀ moment ∈ NodeState.clearMoments env order work,I moment.order moment.work.pending :=
  Trace.forall_mem_outputs (I := fun state : Work × List TxHash => I order state.1.pending) h
    (fun _ _ _ hs => hp.clearTimeout hs) fun _ _ _ hs => hp.timeOutMoments hs

theorem handleProvenBlobs (hp : Preserved env seen I) {txId : TxId}
    {proofTx : VerifiedProofTransaction} (ht : seen (.verifiedProof proofTx))
    {state : Work × TxHashSet} {entry : BlobProofOutput} (he : entry∈proofTx.provenBlobs)
    (h : I order state.1.pending) :
    I order (NodeState.handleProvenBlobs env txId state entry).1.pending := by
  have step : I order (handleBlobProof env txId.txHash state.1 entry).1.pending := by
    unfold handleBlobProof
    dsimp only
    cases hg : state.1.pending.getForSettlement entry.blobTxHash with
    | none => exact h
    | some found =>
      obtain ⟨unsettledTx,shouldSettle⟩ := found
      obtain ⟨tx,hf,hp'⟩ := Option.map_eq_some_iff.mp hg
      obtain ⟨rfl,_⟩ := Prod.mk.inj hp'
      dsimp only
      cases hv : verifyHyleOutput env tx entry.hyleOutput with
      | error e => exact h
      | ok u =>
        dsimp only
        split
        · exact h
        · exact hp.prove order _ proofTx entry tx ht he hf hv h
  unfold NodeState.handleProvenBlobs
  dsimp only
  split <;> exact step

theorem orderAfter (hp : Preserved env seen I) {laneId : LaneId} {txId : TxId} {work : Work}
    {tx : BlobTransaction} {handled : BlobTxHandled} {store : NodeStateStore}
    (ht : seen (.blob tx)) (h : I order work.pending)
    (hh : handleBlobTx env work.store txId.parentHash tx (txContext laneId work.block)=
      .ok (handled,store)) :
    I (NodeState.orderAfter env order laneId txId work (.blob tx)) store.unsettledTransactions := by
  unfold NodeState.orderAfter
  dsimp only
  rw [hh]
  unfold handleBlobTx at hh
  cases hc : checkBlobTx env work.store tx with
  | error e => simp [hc] at hh
  | ok u =>
    have valid := checkBlobTx_eq_ok hc
    simp only [hc] at hh
    split at hh
    · obtain ⟨rfl,rfl⟩ := Prod.mk.inj (Except.ok.inj hh)
      exact h
    · next pending isNext ha =>
      obtain ⟨rfl,rfl⟩ := Prod.mk.inj (Except.ok.inj hh)
      rw [scheduleTimeout_unsettledTransactions]
      have added := hp.sequence order _ _ _ _ _ _ _ ht valid h ha
      split_ifs <;> exact added

theorem handleTransaction (hp : Preserved env seen I) {laneId : LaneId} {txId : TxId}
    {work : Work} {data : TransactionData} (hd : seen data) (h : I order work.pending) :
    I (NodeState.orderAfter env order laneId txId work data)
      (NodeState.handleTransaction env laneId txId work data).pending := by
  cases data with
  | proof tx => exact h
  | verifiedProof proofTx =>
    have proven : I order
        (proofTx.provenBlobs.foldl (NodeState.handleProvenBlobs env txId) (work,∅)).1.pending :=
      List.foldlRecOn
        (motive := fun state : Work × TxHashSet => I order state.1.pending) _ _ h
        fun _ hs _ hm => hp.handleProvenBlobs hd hm hs
    exact hp.settleAndReschedule proven
  | blob tx =>
    cases hh : handleBlobTx env work.store txId.parentHash tx (txContext laneId work.block) with
    | error e =>
      unfold NodeState.orderAfter NodeState.handleTransaction
      simp only [hh]
      exact h
    | ok handled =>
      obtain ⟨handled,store⟩ := handled
      have added := hp.orderAfter hd h hh
      unfold NodeState.handleTransaction
      dsimp only
      rw [hh]
      cases handled with
      | shouldSettle txHash => exact hp.settleAndReschedule added
      | duplicate => exact added
      | ok => exact added

theorem handleMoments (hp : Preserved env seen I) {laneId : LaneId} {txId : TxId}
    {work : Work} {data : TransactionData} (hd : seen data) (h : I order work.pending) :
    ∀ moment ∈ NodeState.handleMoments env order laneId txId work data,
      I moment.order moment.work.pending := by
  cases data with
  | proof tx => simp [NodeState.handleMoments]
  | verifiedProof proofTx =>
    intro moment hm
    have step : ∀ state : Work × TxHashSet,∀ entry ∈ proofTx.provenBlobs,
        I order state.1.pending →
        I order (NodeState.handleProvenBlobs env txId state entry).1.pending :=
      fun _ _ he hs => hp.handleProvenBlobs hd he hs
    obtain proving|settling := List.mem_append.mp hm
    · refine Trace.forall_mem_outputs
        (I := fun state : Work × TxHashSet => I order state.1.pending)
        (Q := fun moment => I moment.order moment.work.pending) h step ?_ moment proving
      intro state entry _ hs moment hm
      obtain rfl := List.mem_singleton.mp hm
      exact hs
    · have proven : I order
          (proofTx.provenBlobs.foldl (NodeState.handleProvenBlobs env txId) (work,∅)).1.pending :=
        List.foldlRecOn
          (motive := fun state : Work × TxHashSet => I order state.1.pending) _ _ h
          fun state hs entry he => step state entry he hs
      exact hp.doneMoments proven moment settling
  | blob tx =>
    intro moment hm
    obtain rfl|tail := List.mem_cons.mp hm
    · exact h
    · split at tail
      · next txHash store hh =>
        have added := hp.orderAfter hd h hh
        exact hp.doneMoments added moment tail
      · simp at tail

theorem blockStep (hp : Preserved env seen I) {state : List TxHash × NodeStateStore}
    {signedBlock : SignedBlock}
    (hb : ∀ entry ∈ signedBlock.iterTxsWithId env.sha3,seen entry.2.2.transactionData)
    (h : I state.1 state.2.unsettledTransactions) :
    I (NodeState.blockStep env state signedBlock).1
      (NodeState.blockStep env state signedBlock).2.unsettledTransactions := by
  unfold NodeState.blockStep
  split
  · have begun : I state.1 (beginBlock env state.2 signedBlock).pending := h
    have cleared : I state.1 (clearedBlock env state signedBlock).2.pending :=
      hp.clearTimeouts begun
    exact List.foldlRecOn (motive := fun state : List TxHash × Work => I state.1 state.2.pending)
      _ _ cleared fun _ hs entry he => hp.handleTransaction (hb entry he) hs
  · exact h

theorem blockMoments (hp : Preserved env seen I) {state : List TxHash × NodeStateStore}
    {signedBlock : SignedBlock}
    (hb : ∀ entry ∈ signedBlock.iterTxsWithId env.sha3,seen entry.2.2.transactionData)
    (h : I state.1 state.2.unsettledTransactions) :
    ∀ moment ∈ NodeState.blockMoments env state signedBlock,
      I moment.order moment.work.pending := by
  intro moment hm
  unfold NodeState.blockMoments at hm
  split at hm
  · have begun : I state.1 (beginBlock env state.2 signedBlock).pending := h
    obtain clearing|handling := List.mem_append.mp hm
    · exact hp.clearMoments begun moment clearing
    · refine Trace.forall_mem_outputs
        (I := fun state : List TxHash × Work => I state.1 state.2.pending)
        (Q := fun moment => I moment.order moment.work.pending) (hp.clearTimeouts begun)
        ?_ ?_ moment handling
      · exact fun _ entry he hs => hp.handleTransaction (hb entry he) hs
      · intro before entry he hs
        have located : I before.1 (locateTx before.2 entry).pending := hs
        exact hp.handleMoments (hb entry he) located
  · simp at hm

/-- Whatever is preserved holds before every call of every run. -/
theorem moments (hp : Preserved env seen I) {signedBlocks : List SignedBlock}
    (hb : ∀ signedBlock ∈ signedBlocks,∀ entry ∈ signedBlock.iterTxsWithId env.sha3,
      seen entry.2.2.transactionData) :
    ∀ moment ∈ NodeState.moments env signedBlocks,I moment.order moment.work.pending :=
  Trace.forall_mem_outputs
    (I := fun state : List TxHash × NodeStateStore => I state.1 state.2.unsettledTransactions)
    hp.start (fun _ signedBlock hm hs => hp.blockStep (hb signedBlock hm) hs)
    fun _ signedBlock hm hs => hp.blockMoments (hb signedBlock hm) hs

end Preserved

end TruthSeeker.NodeState
