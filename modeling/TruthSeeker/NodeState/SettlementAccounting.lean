import Mathlib.Data.List.Count
import TruthSeeker.NodeState.SettlementOrder
import TruthSeeker.NodeState.Vetted

namespace TruthSeeker.NodeState

open OrderedTxMap

namespace Moment

variable (env : Environment) (self : Moment)

/-- The transactions that are pending before the call and no more after it. -/
def leaving : List TxHash :=
  self.work.pending.map.keys.filter fun hash => (self.after env).pending.map[hash]?.isNone

/-- Those that leave although another transaction is settled. -/
def swept : List TxHash :=
  match self.call with
  | .settle bth => (self.leaving env).filter fun hash => hash≠bth
  | _ => []

/-- A blob transaction that is refused when it comes. -/
def refused : List TxHash :=
  match self.call with
  | .sequence parentDpHash laneId tx =>
      match handleBlobTx env self.work.store parentDpHash tx (txContext laneId self.work.block) with
      | .ok _ => []
      | .error _ => [tx.hashed env.sha3]
  | _ => []

/-- A pending transaction that is removed because its time is over. -/
def timedOut : List TxHash :=
  match self.call with
  | .timeOut hash => if self.work.pending.map[hash]?.isSome then [hash] else []
  | _ => []

end Moment

section Blocks
variable (env : Environment) (store : NodeStateStore) (signedBlock : SignedBlock)

/-- The transactions that leave while the block is processed, each as often as it leaves. -/
def leaves : List TxHash :=
  (blockMoments env ([],store) signedBlock).flatMap (Moment.leaving env)

def sweptTxs : List TxHash :=
  (blockMoments env ([],store) signedBlock).flatMap (Moment.swept env)

def refusedTxs : List TxHash :=
  (blockMoments env ([],store) signedBlock).flatMap (Moment.refused env)

/-- Each transaction that leaves is listed once for each time that it leaves, and all that are
listed as successful or timed out were pending. -/
structure Accounted (block : Block) : Prop where
  once : ∀ hash ∈ leaves env store signedBlock,
    (block.successfulTxs++block.failedTxs++block.timedOutTxs).count hash=
      (leaves env store signedBlock).count hash
  pending : ∀ hash,hash∈block.successfulTxs ∨ hash∈block.timedOutTxs →
    hash∈leaves env store signedBlock

end Blocks

section Outcomes
variable {env : Environment} {bth : TxHash} {tx : UnsettledBlobTransaction}

/-- The height of a block and its three lists of outcomes. -/
structure Outcomes where
  height : BlockHeight
  successful : List TxHash
  failed : List TxHash
  timedOut : List TxHash

def outcomes (block : BlockUnderConstruction) : Outcomes :=
  ⟨block.blockHeight,block.successfulTxs,block.failedTxs,block.timedOutTxs⟩

theorem outcomes_noted {block next : BlockUnderConstruction} (h : Noted block next) :
    outcomes next=outcomes block := by
  obtain ⟨_,_,_,_,_,rfl⟩ := h
  rfl

theorem outcomes_noteContract (isNew : Bool) (contractName : ContractName) (contract : Contract)
    (fields : ModifiedContractFields) (sideEffects : List SideEffect)
    (block : BlockUnderConstruction) :
    outcomes (noteContract bth isNew contractName contract fields sideEffects block)=
      outcomes block := by
  obtain ⟨programId,state,verifier,timeoutWindow⟩ := fields
  cases isNew <;> cases programId <;> cases state <;> cases timeoutWindow <;> rfl

theorem outcomes_applyContractChange (work : Work) (change : ContractName × ModifiedContractData) :
    outcomes (applyContractChange bth work change).block=outcomes work.block := by
  obtain ⟨contractName,contract,fields,sideEffects⟩ := change
  cases contract with
  | some contract => exact outcomes_noteContract _ _ _ _ _ _
  | none =>
    exact List.foldlRecOn (motive := fun next : Work => outcomes next.block=outcomes work.block)
      _ _ rfl fun _ hnext _ _ => hnext

theorem outcomes_settleContracts (result : SettlementResult) (work : Work) :
    outcomes (settleContracts bth tx result work).block=outcomes work.block := by
  have recorded : ∀ entries block,outcomes (List.foldl
      (recordBlob bth tx.identity result.blobProofOutputIndices) block entries)=outcomes block := by
    intro entries block
    refine List.foldlRecOn
      (motive := fun next : BlockUnderConstruction => outcomes next=outcomes block) _ _ rfl ?_
    intro next hs entry _
    unfold recordBlob
    dsimp only
    split
    · split <;> exact hs
    · exact hs
  refine List.foldlRecOn (motive := fun next : Work => outcomes next.block=outcomes work.block)
    _ _ (recorded _ _) ?_
  intro next hs change _
  rw [outcomes_applyContractChange,hs]

theorem outcomes_forceOutputs (work : Work) :
    outcomes (forceOutputs bth tx work).1.block=outcomes work.block := by
  refine List.foldlRecOn
    (motive := fun state : Work × TxHashSet => outcomes state.1.block=outcomes work.block)
    _ _ rfl ?_
  intro state hs update _
  unfold applyNuke
  dsimp only
  split <;> exact hs

/-- A settled transaction is noted as successful or as failed. -/
theorem outcomes_onSettledBlobTx (work : Work) (result : Except Unit SettlementResult) :
    let before := outcomes work.block
    let after := outcomes (onSettledBlobTx bth tx work result).1.block
    after={ before with successful := before.successful++[bth] } ∨
      after={ before with failed := before.failed++[bth] } := by
  cases result with
  | error e => exact Or.inr rfl
  | ok result =>
    refine Or.inl ?_
    have same : outcomes (forceOutputs bth tx (settleContracts bth tx result work)).1.block=
        outcomes work.block := by
      rw [outcomes_forceOutputs,outcomes_settleContracts]
    exact congrArg (fun lists : Outcomes =>
      { lists with successful := lists.successful++[bth] }) same

end Outcomes

section Steps
variable {env : Environment} {moment : Moment}

theorem isSome_pushProof {pending : OrderedTxMap} {hash other : TxHash} {index : BlobIndex}
    {proof : ProgramId × HyleOutput} (h : (pending.map[other]?).isSome) :
    ((pending.pushProof hash index proof).map[other]?).isSome := by
  unfold OrderedTxMap.pushProof
  split
  · exact h
  · rw [Std.ExtTreeMap.getElem?_insert]
    split
    · rfl
    · exact h

theorem count_leaving (hash : TxHash) : (moment.leaving env).count hash=
    if (moment.work.pending.map[hash]?).isSome ∧ ((moment.after env).pending.map[hash]?).isNone
    then 1 else 0 := by
  have nodup : (moment.leaving env).Nodup :=
    List.Nodup.filter _ Std.ExtTreeMap.nodup_keys
  have mem : hash∈moment.leaving env ↔ (moment.work.pending.map[hash]?).isSome ∧
      ((moment.after env).pending.map[hash]?).isNone := by
    unfold Moment.leaving
    rw [List.mem_filter,Std.ExtTreeMap.mem_keys,Std.ExtTreeMap.mem_iff_isSome_getElem?]
  by_cases hm : hash∈moment.leaving env
  · rw [if_pos (mem.mp hm)]
    exact List.count_eq_one_of_mem nodup hm
  · rw [if_neg fun both => hm (mem.mpr both)]
    exact List.count_eq_zero_of_not_mem hm

theorem leaving_eq_nil (h : ∀ hash : TxHash,(moment.work.pending.map[hash]?).isSome →
    ((moment.after env).pending.map[hash]?).isSome) : moment.leaving env=[] := by
  unfold Moment.leaving
  rw [List.filter_eq_nil_iff]
  intro hash hm
  rw [Std.ExtTreeMap.mem_keys,Std.ExtTreeMap.mem_iff_isSome_getElem?] at hm
  intro none
  have kept := h hash hm
  rw [Option.isNone_iff_eq_none.mp none] at kept
  cases kept

/-- What a call makes of the outcomes, and who leaves at it. -/
structure Accounts (env : Environment) (moment : Moment) : Prop where
  count : ∀ hash,
    let next := (moment.after env).block
    (next.successfulTxs++next.failedTxs).count hash+(moment.timedOut).count hash+
        (moment.swept env).count hash=
      (moment.work.block.successfulTxs++moment.work.block.failedTxs).count hash+
        (moment.leaving env).count hash+(moment.refused env).count hash
  successful : ∀ hash ∈ (moment.after env).block.successfulTxs,
    hash∈moment.work.block.successfulTxs ∨ hash∈moment.leaving env
  timedOut : (moment.after env).block.timedOutTxs=moment.work.block.timedOutTxs
  height : (moment.after env).block.blockHeight=moment.work.block.blockHeight

/-- A call at which nobody leaves or is refused, and which notes no outcome. -/
theorem accounts_of_same (hl : moment.leaving env=[]) (hr : moment.refused env=[])
    (ht : moment.timedOut=[])
    (hs : outcomes (moment.after env).block=outcomes moment.work.block) :
    Accounts env moment := by
  have successful : (moment.after env).block.successfulTxs=moment.work.block.successfulTxs :=
    congrArg Outcomes.successful hs
  have swept : moment.swept env=[] := by
    unfold Moment.swept
    split
    · rw [hl]
      rfl
    · rfl
  refine ⟨?_,?_,congrArg Outcomes.timedOut hs,congrArg Outcomes.height hs⟩
  · intro hash
    show ((outcomes _).successful++(outcomes _).failed).count hash+_+_=_
    rw [hs,hl,hr,ht,swept]
    rfl
  · intro hash hm
    rw [successful] at hm
    exact Or.inl hm

theorem accounts_sequence (order : List TxHash) (work : Work) (parentDpHash : DataProposalHash)
    (laneId : LaneId) (tx : BlobTransaction) :
    Accounts env ⟨order,work,.sequence parentDpHash laneId tx⟩ := by
  cases hh : handleBlobTx env work.store parentDpHash tx (txContext laneId work.block) with
  | error e =>
    have after : (Moment.mk order work (.sequence parentDpHash laneId tx)).after env=
        work.setBlock { work.block with
          failedTxs := work.block.failedTxs++[tx.hashed env.sha3] } := by
      simp [Moment.after,hh]
    have none : (Moment.mk order work (.sequence parentDpHash laneId tx)).leaving env=[] := by
      apply leaving_eq_nil
      rw [after]
      exact fun _ => id
    refine ⟨?_,?_,?_,?_⟩
    · intro hash
      simp [after,none,Moment.refused,Moment.swept,Moment.timedOut,hh,Work.setBlock,
        List.count_append]
      omega
    · intro hash hm
      rw [after] at hm
      exact Or.inl hm
    · rw [after]
      rfl
    · rw [after]
      rfl
  | ok handled =>
    obtain ⟨handled,store⟩ := handled
    have after : (Moment.mk order work (.sequence parentDpHash laneId tx)).after env=
        ⟨store,work.block⟩ := by
      simp [Moment.after,hh]
    have none : (Moment.mk order work (.sequence parentDpHash laneId tx)).leaving env=[] := by
      apply leaving_eq_nil
      rw [after]
      intro hash hp
      show (store.unsettledTransactions.map[hash]?).isSome=true
      obtain ⟨_,same|⟨isNext,added⟩⟩ := pending_handleBlobTx hh
      · rw [same]
        exact hp
      · rw [add_eq_some added,Std.ExtTreeMap.getElem?_insert]
        split
        · rfl
        · exact hp
    have accepted : (Moment.mk order work (.sequence parentDpHash laneId tx)).refused env=[] := by
      simp [Moment.refused,hh]
    exact accounts_of_same none accepted rfl (by rw [after])

theorem accounts_prove (order : List TxHash) (work : Work) (proofTxHash : TxHash)
    (entry : BlobProofOutput) : Accounts env ⟨order,work,.prove proofTxHash entry⟩ := by
  have none : (Moment.mk order work (.prove proofTxHash entry)).leaving env=[] := by
    apply leaving_eq_nil
    intro hash hp
    show ((handleBlobProof env proofTxHash work entry).1.pending.map[hash]?).isSome=true
    obtain same|⟨tx,_,_,pushed⟩ := pending_handleBlobProof env proofTxHash work entry
    · rw [same]
      exact hp
    · rw [pushed]
      exact isSome_pushProof hp
  exact accounts_of_same none rfl rfl (outcomes_noted (noted_handleBlobProof _ _ _ _))

theorem getElem?_eq_none_of_remove {pending : OrderedTxMap} {hash : TxHash}
    (h : pending.remove hash=none) : pending.map[hash]?=none := by
  cases hf : pending.map[hash]? with
  | none => rfl
  | some tx =>
    obtain ⟨next,removed⟩ := exists_remove hf
    rw [h] at removed
    cases removed

/-- Whoever times out leaves. -/
theorem count_leaving_timeOut (order : List TxHash) (work : Work) (txHash hash : TxHash) :
    ((Moment.mk order work (.timeOut txHash)).leaving env).count hash=
      (Moment.mk order work (.timeOut txHash)).timedOut.count hash := by
  rw [count_leaving]
  show (if (work.pending.map[hash]?).isSome ∧ ((work.drop txHash).pending.map[hash]?).isNone
    then 1 else 0)=(if (work.pending.map[txHash]?).isSome then [txHash] else []).count hash
  unfold Work.drop
  cases hr : work.pending.remove txHash with
  | none =>
    have absent := getElem?_eq_none_of_remove hr
    cases work.pending.map[hash]? <;> simp [absent]
  | some removed =>
    obtain ⟨tx,rest⟩ := removed
    obtain ⟨found,erased⟩ := remove_eq_some hr
    by_cases same : txHash=hash
    · subst same
      simp [found,erased]
    · have kept : rest.map[hash]?=work.pending.map[hash]? := by
        rw [erased,Std.ExtTreeMap.getElem?_erase,if_neg fun heq =>
          same (Std.LawfulEqOrd.eq_of_compare heq)]
      cases hp : work.pending.map[hash]? <;> simp [found,kept,hp,same]

theorem mem_leaving_of_timedOut {hash : TxHash} (h : hash∈moment.timedOut) :
    hash∈moment.leaving env := by
  obtain ⟨order,work,call⟩ := moment
  cases call with
  | timeOut txHash =>
    have positive := List.count_pos_iff.mpr h
    have counted := @count_leaving_timeOut env order work txHash hash
    rw [← counted] at positive
    exact List.count_pos_iff.mp positive
  | _ => cases h

theorem accounts_timeOut (order : List TxHash) (work : Work) (txHash : TxHash) :
    Accounts env ⟨order,work,.timeOut txHash⟩ := by
  have block : (work.drop txHash).block=work.block := by
    unfold Work.drop
    split <;> rfl
  refine ⟨?_,?_,congrArg BlockUnderConstruction.timedOutTxs block,
    congrArg BlockUnderConstruction.blockHeight block⟩
  · intro hash
    show ((work.drop txHash).block.successfulTxs++(work.drop txHash).block.failedTxs).count hash+
      _+0=_+_+0
    rw [count_leaving_timeOut,block]
  · intro hash hm
    have old : hash∈(work.drop txHash).block.successfulTxs := hm
    rw [block] at old
    exact Or.inl old

theorem unsettledTransactions_reschedule (store : NodeStateStore) (hashes : List TxHash) :
    (hashes.foldl rescheduleTimeout store).unsettledTransactions=store.unsettledTransactions :=
  List.foldlRecOn (motive := fun next : NodeStateStore => next.unsettledTransactions=_) _ _ rfl
    fun _ hs _ _ => (rescheduleTimeout_unsettledTransactions _ _).trans hs

theorem accounts_reschedule (order : List TxHash) (work : Work) (hashes : TxHashSet) :
    Accounts env ⟨order,work,.reschedule hashes⟩ := by
  have none : (Moment.mk order work (.reschedule hashes)).leaving env=[] := by
    apply leaving_eq_nil
    intro hash hp
    show ((hashes.toList.foldl rescheduleTimeout
      work.store).unsettledTransactions.map[hash]?).isSome=true
    rwa [unsettledTransactions_reschedule]
  exact accounts_of_same none rfl rfl rfl

/-- A settled transaction does not come back in the same round. -/
theorem absent_onSettledBlobTx {bth : TxHash} {tx : UnsettledBlobTransaction} {work : Work}
    {result : Except Unit SettlementResult} (h : work.pending.map[bth]?=none) :
    (onSettledBlobTx bth tx work result).1.pending.map[bth]?=none := by
  have known : All (Known work.pending) (onSettledBlobTx bth tx work result).1.pending :=
    all_onSettledBlobTx withstandsForce_known all_known
  cases hf : (onSettledBlobTx bth tx work result).1.pending.map[bth]? with
  | none => rfl
  | some found =>
    have before : (work.pending.map[found.hash]?).isSome=true := known bth found hf
    rw [OrderedTxMap.hash_eq _ bth found hf,h] at before
    cases before

theorem accounts_settle (order : List TxHash) (work : Work) (bth : TxHash) :
    Accounts env ⟨order,work,.settle bth⟩ := by
  obtain ⟨block,noted,eq⟩|⟨tx,rest,result,hr,ht,eq⟩ := settleTx_outcome env bth work
  · have after : (Moment.mk order work (.settle bth)).after env=work.setBlock block := by
      show (settleTx env bth work).1=_
      rw [eq]
    have none : (Moment.mk order work (.settle bth)).leaving env=[] := by
      apply leaving_eq_nil
      rw [after]
      exact fun _ => id
    refine accounts_of_same none rfl rfl ?_
    rw [after]
    exact outcomes_noted noted
  · let start := settling env bth work tx rest
    have after : (Moment.mk order work (.settle bth)).after env=
        (onSettledBlobTx bth tx start result).1 := by
      show (settleTx env bth work).1=_
      rw [eq]
    have noted : outcomes start.block=outcomes work.block :=
      outcomes_noted ((Noted.locate _ _ _).trans (Noted.pushEvents _ _))
    obtain ⟨found,erased⟩ := remove_eq_some hr
    have gone : start.pending.map[bth]?=none := by
      show rest.map[bth]?=none
      rw [erased]
      exact Std.ExtTreeMap.getElem?_erase_self
    have absent : (onSettledBlobTx bth tx start result).1.pending.map[bth]?=none :=
      absent_onSettledBlobTx gone
    have leaves : ((Moment.mk order work (.settle bth)).leaving env).count bth=1 := by
      rw [count_leaving,after]
      simp [found,absent]
    have mem : bth∈(Moment.mk order work (.settle bth)).leaving env :=
      List.count_pos_iff.mp (by omega)
    have others : ∀ hash,((Moment.mk order work (.settle bth)).swept env).count hash+
        [bth].count hash=((Moment.mk order work (.settle bth)).leaving env).count hash := by
      intro hash
      show (((Moment.mk order work (.settle bth)).leaving env).filter
        fun hash => hash≠bth).count hash+_=_
      by_cases same : hash=bth
      · subst same
        rw [leaves,List.count_eq_zero_of_not_mem (by simp)]
        simp
      · rw [List.count_filter (by simpa using same),List.count_singleton]
        simp [Ne.symm same]
    have outcome := @outcomes_onSettledBlobTx bth tx start result
    rw [← after,noted] at outcome
    obtain settled|refused := outcome
    · refine ⟨?_,?_,congrArg Outcomes.timedOut settled,congrArg Outcomes.height settled⟩
      · intro hash
        have split := others hash
        show ((outcomes _).successful++(outcomes _).failed).count hash+_+_=_
        rw [settled]
        simp only [outcomes,List.count_append,Moment.timedOut,Moment.refused,List.count_nil]
        omega
      · intro hash hm
        have listed : hash∈(outcomes ((Moment.mk order work (.settle bth)).after
          env).block).successful := hm
        rw [settled] at listed
        obtain old|new := List.mem_append.mp listed
        · exact Or.inl old
        · obtain rfl := List.mem_singleton.mp new
          exact Or.inr mem
    · refine ⟨?_,?_,congrArg Outcomes.timedOut refused,congrArg Outcomes.height refused⟩
      · intro hash
        have split := others hash
        show ((outcomes _).successful++(outcomes _).failed).count hash+_+_=_
        rw [refused]
        simp only [outcomes,List.count_append,Moment.timedOut,Moment.refused,List.count_nil]
        omega
      · intro hash hm
        have listed : hash∈(outcomes ((Moment.mk order work (.settle bth)).after
          env).block).successful := hm
        rw [refused] at listed
        exact Or.inl listed

/-- Every call accounts for those who leave. -/
theorem accounts (env : Environment) (moment : Moment) : Accounts env moment := by
  obtain ⟨order,work,call⟩ := moment
  cases call with
  | sequence parentDpHash laneId tx => exact accounts_sequence order work parentDpHash laneId tx
  | prove proofTxHash entry => exact accounts_prove order work proofTxHash entry
  | settle bth => exact accounts_settle order work bth
  | timeOut txHash => exact accounts_timeOut order work txHash
  | reschedule hashes => exact accounts_reschedule order work hashes

end Steps

section Runs
variable {env : Environment} {order : List TxHash}

/-- Across all calls, those who leave are listed, timed out or swept away. -/
theorem maintained_accounts (env : Environment) : Maintained env (fun _ => True) fun past work =>
    (∀ hash,(work.block.successfulTxs++work.block.failedTxs).count hash+
        (past.flatMap Moment.timedOut).count hash+(past.flatMap (Moment.swept env)).count hash=
      (past.flatMap (Moment.leaving env)).count hash+
        (past.flatMap (Moment.refused env)).count hash) ∧
    ∀ hash ∈ work.block.successfulTxs,hash∈past.flatMap (Moment.leaving env) where
  note := by
    intro past work block noted h
    have same := outcomes_noted noted
    show (∀ hash,((outcomes block).successful++(outcomes block).failed).count hash+_+_=_) ∧
      ∀ hash ∈ (outcomes block).successful,_
    rw [same]
    exact h
  call := by
    intro past moment _ h
    have step := accounts env moment
    simp only [List.flatMap_append,List.flatMap_singleton,List.count_append,List.mem_append]
    constructor
    · intro hash
      have before := h.1 hash
      have added := step.count hash
      simp only [List.count_append] at before added
      omega
    · intro hash hm
      obtain old|new := step.successful hash hm
      · exact Or.inl (h.2 hash old)
      · exact Or.inr new

/-- After the timeouts of a block have been cleared, nobody times out. -/
theorem maintained_timedOutTxs (env : Environment) (hashes : List TxHash) :
    Maintained env (fun call => call.isTimeOut=false) fun past work =>
      past.flatMap Moment.timedOut=[] ∧ work.block.timedOutTxs=hashes where
  note := by
    intro past work block noted h
    exact ⟨h.1,(congrArg Outcomes.timedOut (outcomes_noted noted)).trans h.2⟩
  call := by
    intro past moment allowed h
    have none : moment.timedOut=[] := by
      unfold Moment.timedOut
      split
      · next hc =>
        rw [hc] at allowed
        cases allowed
      · rfl
    refine ⟨?_,(accounts env moment).timedOut.trans h.2⟩
    rw [List.flatMap_append,h.1,List.flatMap_singleton,none]
    rfl

theorem timedOut_timeOutMoments (state : Work × List TxHash) (hash : TxHash) :
    (clearTimeout env state hash).2=
      state.2++(timeOutMoments env order state hash).flatMap Moment.timedOut := by
  unfold clearTimeout timeOutMoments
  cases hr : state.1.pending.remove hash with
  | none =>
    have absent := getElem?_eq_none_of_remove hr
    simp [Moment.timedOut,absent]
  | some removed =>
    obtain ⟨tx,rest⟩ := removed
    obtain ⟨found,_⟩ := remove_eq_some hr
    let dropped := ((state.1.setPending rest).pushEvent tx.hash .timedOut).locate tx
    have done : ([]++doneMoments env order dropped (nextTxs rest tx)).flatMap Moment.timedOut=[] ∧
        (settleAndReschedule env dropped (nextTxs rest tx)).block.timedOutTxs=_ :=
      (maintained_timedOutTxs env dropped.block.timedOutTxs).settleAndReschedule (fun _ => rfl)
        (fun _ => rfl) ⟨rfl,rfl⟩
    rw [List.nil_append] at done
    simp only [List.flatMap_cons]
    rw [done.1]
    simp [Moment.timedOut,found]

/-- The block lists those who have timed out, in their order. -/
theorem timedOutTxs_clearTimeouts (work : Work) : (clearTimeouts env work).block.timedOutTxs=
    (clearMoments env order work).flatMap Moment.timedOut := by
  let started : Work := ⟨{ work.store with
    timeouts := work.store.timeouts.erase work.block.blockHeight },work.block⟩
  let due := work.store.timeouts.getD work.block.blockHeight []
  have all : (due.foldl (clearTimeout env) (started,[])).2=
      ([]++Trace.outputs (clearTimeout env) (timeOutMoments env order) (started,[])
        due).flatMap Moment.timedOut := by
    refine Trace.foldl_of_past
      (I := fun past (state : Work × List TxHash) => state.2=past.flatMap Moment.timedOut) rfl ?_
    intro past state hash _ h
    rw [@timedOut_timeOutMoments env order,h,List.flatMap_append]
  exact all

theorem timedOutTxs_blockWork {store : NodeStateStore} {signedBlock : SignedBlock}
    (ho : InOrder store signedBlock) : (blockWork env store signedBlock).block.timedOutTxs=
      (blockMoments env (order,store) signedBlock).flatMap Moment.timedOut := by
  let cleared := clearedBlock env (order,store) signedBlock
  let handling := Trace.outputs (txStep env) (txMoments env) cleared
    (signedBlock.iterTxsWithId env.sha3)
  have handled : ([]++handling).flatMap Moment.timedOut=[] ∧
      (blockWork env store signedBlock).block.timedOutTxs=cleared.2.block.timedOutTxs :=
    (maintained_timedOutTxs env cleared.2.block.timedOutTxs).handleTxs (fun _ hc => hc)
      (fun _ he _ hd => txHash_of_mem he hd) ⟨rfl,rfl⟩
  have clears := @timedOutTxs_clearTimeouts env order (beginBlock env store signedBlock)
  unfold blockMoments
  rw [if_pos ho,List.flatMap_append,← clears,handled.2]
  rw [List.nil_append] at handled
  show _=_++handling.flatMap Moment.timedOut
  rw [handled.1,List.append_nil]
  rfl

/-- What each block says of the transactions that leave. -/
theorem count_outcomes {store : NodeStateStore} {signedBlock : SignedBlock} {block : Block}
    (h : (handleSignedBlock env store signedBlock).2=.ok block) :
    (∀ hash,(block.successfulTxs++block.failedTxs++block.timedOutTxs).count hash+
        (sweptTxs env store signedBlock).count hash=
      (leaves env store signedBlock).count hash+(refusedTxs env store signedBlock).count hash) ∧
    ∀ hash,hash∈block.successfulTxs ∨ hash∈block.timedOutTxs →
      hash∈leaves env store signedBlock := by
  have ho := inOrder_of_ok h
  rw [handleSignedBlock_of_inOrder ho] at h
  obtain rfl := Except.ok.inj h
  obtain ⟨counts,successful⟩ := @Maintained.blockWork env _ [] (maintained_accounts env)
    ⟨fun _ _ h => h,fun _ _ _ h => h⟩ [] store signedBlock ho
    ⟨fun _ => rfl,fun _ hm => by cases hm⟩
  have timedOut := @timedOutTxs_blockWork env [] store signedBlock ho
  rw [List.nil_append] at counts successful
  constructor
  · intro hash
    have all := counts hash
    rw [← timedOut] at all
    unfold leaves sweptTxs refusedTxs
    simp only [List.count_append] at all ⊢
    omega
  · intro hash hm
    obtain listed|listed := hm
    · exact successful hash listed
    · have out : hash∈(blockWork env store signedBlock).block.timedOutTxs := listed
      rw [timedOut] at out
      obtain ⟨moment,hmem,hout⟩ := List.mem_flatMap.mp out
      exact List.mem_flatMap.mpr ⟨moment,hmem,mem_leaving_of_timedOut hout⟩

/-- A block accounts for the transactions that leave if and only if each of them is swept away
with a deleted contract as often as it is refused. -/
theorem accounted_iff (env : Environment) (store : NodeStateStore) (signedBlock : SignedBlock)
    (block : Block) (h : (handleSignedBlock env store signedBlock).2=.ok block) :
    Accounted env store signedBlock block ↔ ∀ hash ∈ leaves env store signedBlock,
      (sweptTxs env store signedBlock).count hash=
        (refusedTxs env store signedBlock).count hash := by
  obtain ⟨counts,listed⟩ := count_outcomes h
  constructor
  · intro ha hash hm
    have all := counts hash
    have once := ha.once hash hm
    omega
  · intro hs
    refine ⟨?_,listed⟩
    intro hash hm
    have all := counts hash
    have same := hs hash hm
    omega

end Runs

namespace DeletedContract

def registration : SignedBlock := TwoContracts.block [⟨1,.blob registerTx⟩]

/-- How often the hash leaves in the block, and how often the block lists it. -/
def counts (signedBlock : SignedBlock) (hash : TxHash) : Nat × Option Nat :=
  ((leaves env NodeStateStore.default signedBlock).count hash,
    match (handleSignedBlock env NodeStateStore.default signedBlock).2 with
    | .ok block => some ((block.successfulTxs++block.failedTxs++block.timedOutTxs).count hash)
    | .error _ => none)

theorem runs_deletion : counts deletingBlock waitingHash=(1,some 0) ∧
    (leaves env NodeStateStore.default registration).length=1 ∧
    ∀ hash ∈ leaves env NodeStateStore.default registration,
      (sweptTxs env NodeStateStore.default registration).count hash=
        (refusedTxs env NodeStateStore.default registration).count hash := by
  decide +kernel

end DeletedContract

open DeletedContract in
theorem accounted_iff_registration : ∃ block,
    (handleSignedBlock env NodeStateStore.default registration).2=.ok block ∧
    (leaves env NodeStateStore.default registration).length=1 ∧
    Accounted env NodeStateStore.default registration block := by
  have handled := @handleSignedBlock_of_inOrder env NodeStateStore.default registration (by decide)
  refine ⟨_,congrArg Prod.snd handled,runs_deletion.2.1,?_⟩
  exact (accounted_iff env NodeStateStore.default registration _ (congrArg Prod.snd handled)).mpr
    runs_deletion.2.2

open DeletedContract in
/-- The transaction that waits for the deleted contract is gone and not listed. -/
theorem not_accounted : ¬∀ block,
    (handleSignedBlock env NodeStateStore.default deletingBlock).2=.ok block →
    Accounted env NodeStateStore.default deletingBlock block := by
  intro h
  obtain ⟨left,listed⟩ := Prod.mk.inj runs_deletion.1
  split at listed
  · next block handled =>
    have leaving : waitingHash∈leaves env NodeStateStore.default deletingBlock :=
      List.count_pos_iff.mp (by omega)
    have once := (h block handled).once waitingHash leaving
    rw [left,Option.some.inj listed] at once
    cases once
  · cases listed

end TruthSeeker.NodeState
