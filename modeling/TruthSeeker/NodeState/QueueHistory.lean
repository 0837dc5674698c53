import TruthSeeker.Framework.Trace
import TruthSeeker.NodeState.Queues

namespace TruthSeeker.OrderedTxMap

/-- A call of one of the two functions that change the queues. -/
inductive Call where
  | add (tx : UnsettledBlobTransaction)
  | remove (hash : TxHash)

namespace Call

/-- A call without a result leaves the map as it is. -/
def run (self : OrderedTxMap) : Call → OrderedTxMap
  | .add tx => ((self.add tx).map Prod.fst).getD self
  | .remove hash => ((self.remove hash).map Prod.snd).getD self

/-- The hash of the transaction that the call inserts, if it does. -/
def inserted (self : OrderedTxMap) : Call → List TxHash
  | .add tx => if (self.add tx).isSome then [tx.hash] else []
  | .remove _ => []

end Call

/-- The hashes in the order in which the calls insert them, each as often as it is inserted. -/
def insertions (calls : List Call) : List TxHash :=
  Trace.outputs Call.run Call.inserted empty calls

/-- A hash that is inserted again counts where it was inserted last. -/
theorem dedup_concat (log : List TxHash) (hash : TxHash) :
    (log++[hash]).dedup=NodeState.resequence log.dedup hash := by
  unfold NodeState.resequence
  induction log with
  | nil => simp
  | cons h hs ih =>
    rw [List.cons_append]
    by_cases here : h=hash
    · subst here
      rw [List.dedup_cons_of_mem (by simp),ih]
      by_cases again : h∈hs
      · rw [List.dedup_cons_of_mem again]
      · rw [List.dedup_cons_of_notMem again]
        simp
    · by_cases again : h∈hs
      · rw [List.dedup_cons_of_mem (List.mem_append_left _ again),ih,List.dedup_cons_of_mem again]
      · have fresh : h∉hs++[hash] := by simp [again,here]
        rw [List.dedup_cons_of_notMem fresh,ih,List.dedup_cons_of_notMem again]
        simp [here]

section NoEmpty
variable {order : Std.ExtTreeMap ContractName (List TxHash)} {hash : TxHash}

/-- A contract that no transaction blocks has no queue. -/
def NoEmptyQueue (order : Std.ExtTreeMap ContractName (List TxHash)) : Prop :=
  ∀ contract : ContractName,order[contract]?≠some []

theorem NoEmptyQueue.insert (h : NoEmptyQueue order) {contract : ContractName}
    {queue : List TxHash} (hq : queue≠[]) : NoEmptyQueue (order.insert contract queue) := by
  intro other
  rw [Std.ExtTreeMap.getElem?_insert]
  split_ifs
  · simpa using hq
  · exact h other

theorem NoEmptyQueue.erase (h : NoEmptyQueue order) (contract : ContractName) :
    NoEmptyQueue (order.erase contract) := by
  intro other
  rw [Std.ExtTreeMap.getElem?_erase]
  split_ifs
  · simp
  · exact h other

theorem noEmptyQueue_enqueue (h : NoEmptyQueue order) (contracts : List ContractName) :
    NoEmptyQueue (enqueue order hash contracts) :=
  List.foldlRecOn (motive := NoEmptyQueue) _ _ h fun _ ho _ _ => ho.insert (by simp)

theorem noEmptyQueue_dequeueOne (h : NoEmptyQueue order) (contract : ContractName) :
    NoEmptyQueue (dequeueOne hash order contract) := by
  unfold dequeueOne
  split
  · exact h
  · dsimp only
    split_ifs with hr
    · exact h.erase contract
    · exact h.insert hr

theorem noEmptyQueue_dequeue (h : NoEmptyQueue order) (contracts : List ContractName) :
    NoEmptyQueue (dequeue order hash contracts) :=
  List.foldlRecOn (motive := NoEmptyQueue) _ _ h fun _ ho _ _ => noEmptyQueue_dequeueOne ho _

end NoEmpty

variable {self : OrderedTxMap}

theorem noEmptyQueue_add {tx : UnsettledBlobTransaction} {next : OrderedTxMap} {isNext : Bool}
    (h : NoEmptyQueue self.txOrder) (ha : self.add tx=some (next,isNext)) :
    NoEmptyQueue next.txOrder := by
  unfold add at ha
  split_ifs at ha
  obtain ⟨rfl,_⟩ := Prod.mk.inj (Option.some.inj ha)
  exact noEmptyQueue_enqueue h _

theorem noEmptyQueue_remove {hash : TxHash} {tx : UnsettledBlobTransaction} {next : OrderedTxMap}
    (h : NoEmptyQueue self.txOrder) (hr : self.remove hash=some (tx,next)) :
    NoEmptyQueue next.txOrder := by
  unfold remove at hr
  split at hr
  · cases hr
  · obtain ⟨rfl,rfl⟩ := Prod.mk.inj (Option.some.inj hr)
    exact noEmptyQueue_dequeue h _

/-- An addition is refused only where the hash is present. -/
theorem add_eq_none {tx : UnsettledBlobTransaction} :
    self.add tx=none ↔ (self.map[tx.hash]?).isSome := by
  unfold add
  by_cases hn : self.map[tx.hash]?=none
  · simp [hn]
  · rw [dif_neg hn]
    simpa [Option.isSome_iff_ne_none] using hn

/-- A new transaction is at the front of a queue if the queue was empty, since its hash is not
there yet. -/
theorem getNextUnsettledTx_add {tx : UnsettledBlobTransaction} {next : OrderedTxMap}
    {isNext : Bool} (ha : self.add tx=some (next,isNext)) {contract : ContractName}
    (hc : contract∈tx.blockedContracts) :
    next.getNextUnsettledTx contract=some tx.hash ↔ self.txOrder.getD contract []=[] := by
  obtain ⟨fresh,queues⟩ := txOrder_add ha
  unfold getNextUnsettledTx
  rw [queues,if_pos hc]
  cases hq : self.txOrder.getD contract [] with
  | nil => simp
  | cons first rest =>
    simp only [List.cons_append,List.head?_cons,Option.some.injEq,reduceCtorEq,iff_false]
    rintro rfl
    obtain ⟨found,hf,_⟩ := self.queued contract tx.hash (by rw [hq]; exact List.mem_cons_self)
    rw [fresh] at hf
    cases hf

theorem isNext_add {tx : UnsettledBlobTransaction} {next : OrderedTxMap} {isNext : Bool}
    (ha : self.add tx=some (next,isNext)) :
    isNext=true ↔ ∀ contract ∈ tx.blockedContracts,
      next.getNextUnsettledTx contract=some tx.hash := by
  have alone : isNext=true ↔ ∀ contract ∈ tx.blockedContracts,
      self.txOrder.getD contract []=[] := by
    unfold add at ha
    split_ifs at ha
    obtain ⟨_,rfl⟩ := Prod.mk.inj (Option.some.inj ha)
    simp
  rw [alone]
  exact forall₂_congr fun contract hc => (getNextUnsettledTx_add ha hc).symm

/-- What the map stands for, given the insertions so far. -/
structure Represents (log : List TxHash) (self : OrderedTxMap) : Prop where
  mem_queue : ∀ contract hash,hash∈self.txOrder.getD contract [] ↔
    ∃ tx,self.map[hash]?=some tx ∧ contract∈tx.blockedContracts
  /-- The queues are in the order of the last insertions. -/
  sublist : ∀ contract,(self.txOrder.getD contract []).Sublist log.dedup
  nodup : ∀ contract,(self.txOrder.getD contract []).Nodup
  noEmpty : NoEmptyQueue self.txOrder
  present : ∀ tx : UnsettledBlobTransaction,(self.map[tx.hash]?).isSome →
    self.add tx=none ∧ Call.run self (.add tx)=self
  /-- A new transaction comes into the map and to the end of the queues of its contracts. -/
  isNext : ∀ tx : UnsettledBlobTransaction,self.map[tx.hash]?=none →
    ∃ next isNext,self.add tx=some (next,isNext) ∧ next.map=self.map.insert tx.hash tx ∧
      (∀ contract,next.txOrder.getD contract []=
        if contract∈tx.blockedContracts then self.txOrder.getD contract []++[tx.hash]
        else self.txOrder.getD contract []) ∧
      (isNext=true ↔ ∀ contract ∈ tx.blockedContracts,
        next.getNextUnsettledTx contract=some tx.hash)
  removed : ∀ hash tx,self.map[hash]?=some tx →
    ∃ next,self.remove hash=some (tx,next) ∧ next.map=self.map.erase hash ∧
      ∀ contract,next.txOrder.getD contract []=
        (self.txOrder.getD contract []).filter fun h => h≠hash
  absent : ∀ hash,self.map[hash]?=none →
    self.remove hash=none ∧ Call.run self (.remove hash)=self

/-- A removal is refused only where the hash is absent. -/
theorem remove_eq_none {hash : TxHash} : self.remove hash=none ↔ self.map[hash]?=none := by
  unfold remove
  split
  · next absent => simp [absent]
  · next found => simp [found]

theorem map_add {tx : UnsettledBlobTransaction} {next : OrderedTxMap} {isNext : Bool}
    (ha : self.add tx=some (next,isNext)) : next.map=self.map.insert tx.hash tx := by
  unfold add at ha
  split_ifs at ha
  obtain ⟨rfl,_⟩ := Prod.mk.inj (Option.some.inj ha)
  rfl

/-- A removed hash is in no queue but those of the contracts that its transaction blocks. -/
theorem filter_remove {hash : TxHash} {tx : UnsettledBlobTransaction} {next : OrderedTxMap}
    (hr : self.remove hash=some (tx,next)) (contract : ContractName) :
    next.txOrder.getD contract []=
      (self.txOrder.getD contract []).filter fun h => h≠hash := by
  rw [txOrder_remove hr]
  split_ifs with blocked
  · rfl
  · symm
    rw [List.filter_eq_self]
    intro h hm
    by_contra same
    obtain rfl : h=hash := by simpa using same
    obtain ⟨found,hf,hc⟩ := self.queued contract h hm
    obtain rfl := Option.some.inj ((remove_eq_some hr).1.symm.trans hf)
    exact blocked hc

theorem represents_of_queued {log : List TxHash} (h : Queued log.dedup self)
    (hn : NoEmptyQueue self.txOrder) : Represents log self where
  mem_queue := by
    intro contract hash
    constructor
    · exact self.queued contract hash
    · rintro ⟨tx,ht,hc⟩
      rw [h.queue contract]
      exact List.mem_filter.mpr ⟨h.known hash tx ht,blocks_eq_true.mpr ⟨tx,ht,hc⟩⟩
  sublist := by
    intro contract
    rw [h.queue contract]
    exact List.filter_sublist
  nodup := by
    intro contract
    rw [h.queue contract]
    exact h.nodup.filter _
  noEmpty := hn
  present := by
    intro tx found
    have refused : self.add tx=none := add_eq_none.mpr found
    exact ⟨refused,by simp [Call.run,refused]⟩
  isNext := by
    intro tx fresh
    cases ha : self.add tx with
    | none =>
      have found := add_eq_none.mp ha
      simp [fresh] at found
    | some added =>
      exact ⟨added.1,added.2,rfl,map_add ha,(txOrder_add ha).2,isNext_add ha⟩
  removed := by
    intro hash tx found
    cases hr : self.remove hash with
    | none =>
      rw [remove_eq_none.mp hr] at found
      cases found
    | some removed =>
      obtain ⟨old,next⟩ := removed
      obtain ⟨here,left⟩ := remove_eq_some hr
      obtain rfl := Option.some.inj (found.symm.trans here)
      exact ⟨next,rfl,left,filter_remove hr⟩
  absent := by
    intro hash missing
    have refused : self.remove hash=none := remove_eq_none.mpr missing
    exact ⟨refused,by simp [Call.run,refused]⟩

/-- One call keeps the queues in the order of the insertions. -/
theorem queued_run {log : List TxHash} (h : Queued log.dedup self)
    (hn : NoEmptyQueue self.txOrder) (call : Call) :
    Queued (log++call.inserted self).dedup (call.run self) ∧
      NoEmptyQueue (call.run self).txOrder := by
  cases call with
  | add tx =>
    cases ha : self.add tx with
    | none => simpa [Call.run,Call.inserted,ha] using And.intro h hn
    | some added =>
      obtain ⟨next,isNext⟩ := added
      have queued := h.add ha
      rw [← dedup_concat] at queued
      simpa [Call.run,Call.inserted,ha] using And.intro queued (noEmptyQueue_add hn ha)
  | remove hash =>
    cases hr : self.remove hash with
    | none => simpa [Call.run,Call.inserted,hr] using And.intro h hn
    | some removed =>
      obtain ⟨tx,next⟩ := removed
      simpa [Call.run,Call.inserted,hr] using And.intro (h.remove hr) (noEmptyQueue_remove hn hr)

/-- After any calls, the queues hold the pending transactions in the order of their insertion. -/
theorem represents_foldl (calls : List Call) :
    Represents (insertions calls) (calls.foldl Call.run empty) := by
  have start : Queued ([] : List TxHash).dedup empty ∧ NoEmptyQueue empty.txOrder :=
    ⟨Queued.start,by simp [NoEmptyQueue,empty]⟩
  have queued : Queued ([]++Trace.outputs Call.run Call.inserted empty calls).dedup
      (calls.foldl Call.run empty) ∧ NoEmptyQueue (calls.foldl Call.run empty).txOrder :=
    Trace.foldl_of_past
      (I := fun log self => Queued log.dedup self ∧ NoEmptyQueue self.txOrder) start
      fun _ _ call _ h => queued_run h.1 h.2 call
  exact represents_of_queued queued.1 queued.2

end TruthSeeker.OrderedTxMap
