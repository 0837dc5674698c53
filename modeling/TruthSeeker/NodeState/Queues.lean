import TruthSeeker.NodeState.Moments

namespace TruthSeeker

namespace UnsettledBlobTransaction

variable (self : UnsettledBlobTransaction)

theorem nodup_blockedContracts : self.blockedContracts.Nodup := List.nodup_dedup _

theorem mem_blockedContracts_pushProof_iff {index : BlobIndex} {proof : ProgramId × HyleOutput}
    {contract : ContractName} :
    contract∈(self.pushProof index proof).blockedContracts ↔ contract∈self.blockedContracts := by
  constructor
  · intro h
    obtain ⟨i,metadata,hm,hc⟩ := (mem_blockedContracts _).mp h
    obtain ⟨old,ho,hb,_⟩ := self.getElem?_pushProof hm
    exact self.mem_blockedContracts.mpr ⟨i,old,ho,hb ▸ hc⟩
  · exact self.mem_blockedContracts_pushProof

end UnsettledBlobTransaction

namespace OrderedTxMap

section Queue
variable {order : Std.ExtTreeMap ContractName (List TxHash)} {hash : TxHash}

theorem getD_enqueue {contracts : List ContractName} (hn : contracts.Nodup)
    (contract : ContractName) :
    (enqueue order hash contracts).getD contract []=
      if contract∈contracts then order.getD contract []++[hash] else order.getD contract [] := by
  induction contracts generalizing order with
  | nil => rfl
  | cons c cs ih =>
    have tail := @ih (order.insert c (order.getD c []++[hash])) (List.nodup_cons.mp hn).2
    have head := (List.nodup_cons.mp hn).1
    unfold enqueue at tail ⊢
    rw [List.foldl_cons,tail,Std.ExtTreeMap.getD_insert]
    by_cases hc : contract=c
    · subst hc
      simp [head]
    · have apart : compare c contract≠.eq := fun heq =>
        hc (Std.LawfulEqOrd.eq_of_compare heq).symm
      simp [hc,apart]

theorem getD_dequeueOne (c contract : ContractName) :
    (dequeueOne hash order c).getD contract []=
      if contract=c then (order.getD contract []).filter (fun h => h≠hash)
      else order.getD contract [] := by
  unfold dequeueOne
  by_cases hc : contract=c
  · subst hc
    rw [if_pos rfl]
    cases hq : order[contract]? with
    | none => simp [Std.ExtTreeMap.getD_eq_getD_getElem?,hq]
    | some queue =>
      have here : order.getD contract []=queue := by
        rw [Std.ExtTreeMap.getD_eq_getD_getElem?,hq]
        rfl
      dsimp only
      rw [here]
      split_ifs with hr
      · rw [hr]
        simp
      · simp
  · have apart : compare c contract≠.eq := fun heq =>
      hc (Std.LawfulEqOrd.eq_of_compare heq).symm
    rw [if_neg hc]
    cases order[c]? with
    | none => rfl
    | some queue =>
      dsimp only
      split_ifs
      · rw [Std.ExtTreeMap.getD_erase,if_neg apart]
      · rw [Std.ExtTreeMap.getD_insert,if_neg apart]

theorem getD_dequeue {contracts : List ContractName} (contract : ContractName) :
    (dequeue order hash contracts).getD contract []=
      if contract∈contracts then (order.getD contract []).filter (fun h => h≠hash)
      else order.getD contract [] := by
  induction contracts generalizing order with
  | nil => rfl
  | cons c cs ih =>
    have tail := @ih (dequeueOne hash order c)
    unfold dequeue at tail ⊢
    rw [List.foldl_cons,tail,getD_dequeueOne]
    by_cases hc : contract=c <;> by_cases hcs : contract∈cs <;> simp [hc,hcs]

end Queue

variable {self : OrderedTxMap}

/-- What the addition of a transaction does to the queues. -/
theorem txOrder_add {tx : UnsettledBlobTransaction} {next : OrderedTxMap} {isNext : Bool}
    (h : self.add tx=some (next,isNext)) :
    self.map[tx.hash]?=none ∧ ∀ contract,next.txOrder.getD contract []=
      if contract∈tx.blockedContracts then self.txOrder.getD contract []++[tx.hash]
      else self.txOrder.getD contract [] := by
  unfold add at h
  split_ifs at h with hn
  obtain ⟨rfl,_⟩ := Prod.mk.inj (Option.some.inj h)
  exact ⟨hn,getD_enqueue tx.nodup_blockedContracts⟩

theorem txOrder_remove {hash : TxHash} {tx : UnsettledBlobTransaction} {next : OrderedTxMap}
    (h : self.remove hash=some (tx,next)) (contract : ContractName) :
    next.txOrder.getD contract []=
      if contract∈tx.blockedContracts then
        (self.txOrder.getD contract []).filter (fun h => h≠hash)
      else self.txOrder.getD contract [] := by
  unfold remove at h
  split at h
  · cases h
  · next found hf =>
    obtain ⟨rfl,rfl⟩ := Prod.mk.inj (Option.some.inj h)
    have same := self.hash_eq hash found hf
    dsimp only
    rw [same]
    exact getD_dequeue contract

@[simp] theorem txOrder_pushProof (hash : TxHash) (index : BlobIndex)
    (proof : ProgramId × HyleOutput) : (self.pushProof hash index proof).txOrder=self.txOrder := by
  unfold pushProof
  split <;> rfl

/-- Whether a transaction is pending and blocks the contract. -/
def blocks (self : OrderedTxMap) (contract : ContractName) (hash : TxHash) : Bool :=
  self.map[hash]?.any fun tx => contract∈tx.blockedContracts

theorem blocks_eq_true {contract : ContractName} {hash : TxHash} :
    self.blocks contract hash=true ↔
      ∃ tx,self.map[hash]?=some tx ∧ contract∈tx.blockedContracts := by
  simp [blocks,Option.any_eq_true]

theorem blocks_pushProof {hash : TxHash} {index : BlobIndex} {proof : ProgramId × HyleOutput}
    (contract : ContractName) (h : TxHash) :
    (self.pushProof hash index proof).blocks contract h=self.blocks contract h := by
  unfold pushProof
  split
  · rfl
  · next tx ht =>
    unfold blocks
    dsimp only
    rw [Std.ExtTreeMap.getElem?_insert]
    split_ifs with heq
    · obtain rfl := Std.LawfulEqOrd.eq_of_compare heq
      rw [ht]
      simp [tx.mem_blockedContracts_pushProof_iff]
    · rfl

theorem blocks_remove {hash : TxHash} {tx : UnsettledBlobTransaction} {next : OrderedTxMap}
    (h : self.remove hash=some (tx,next)) (contract : ContractName) (other : TxHash) :
    next.blocks contract other=(self.blocks contract other && decide (other≠hash)) := by
  unfold blocks
  rw [(remove_eq_some h).2,Std.ExtTreeMap.getElem?_erase]
  by_cases heq : other=hash
  · subst heq
    simp
  · have apart : compare hash other≠.eq := fun hc =>
      heq (Std.LawfulEqOrd.eq_of_compare hc).symm
    simp [apart,heq]

theorem blocks_add {tx : UnsettledBlobTransaction} {next : OrderedTxMap} {isNext : Bool}
    (h : self.add tx=some (next,isNext)) (contract : ContractName) (other : TxHash) :
    next.blocks contract other=
      if other=tx.hash then decide (contract∈tx.blockedContracts)
      else self.blocks contract other := by
  unfold blocks
  rw [add_eq_some h,Std.ExtTreeMap.getElem?_insert]
  by_cases heq : other=tx.hash
  · subst heq
    simp
  · have apart : compare tx.hash other≠.eq := fun hc =>
      heq (Std.LawfulEqOrd.eq_of_compare hc).symm
    simp [apart,heq]

/-- Each queue holds the pending transactions that block its contract, in the order in which
they were sequenced. -/
structure Queued (order : List TxHash) (pending : OrderedTxMap) : Prop where
  nodup : order.Nodup
  known : ∀ (hash : TxHash) (tx : UnsettledBlobTransaction),
    pending.map[hash]?=some tx → hash∈order
  queue : ∀ contract,pending.txOrder.getD contract []=order.filter (pending.blocks contract)

namespace Queued

variable {order : List TxHash}

theorem start : Queued [] empty where
  nodup := List.nodup_nil
  known := by simp [empty]
  queue := by simp [empty]

theorem remove (h : Queued order self) {hash : TxHash} {tx : UnsettledBlobTransaction}
    {next : OrderedTxMap} (hr : self.remove hash=some (tx,next)) : Queued order next where
  nodup := h.nodup
  known := by
    intro other found hf
    rw [(remove_eq_some hr).2,Std.ExtTreeMap.getElem?_erase] at hf
    split_ifs at hf
    exact h.known other found hf
  queue := by
    intro contract
    rw [txOrder_remove hr,h.queue,List.filter_congr fun other _ => blocks_remove hr contract other]
    split_ifs with hc
    · rw [List.filter_filter]
      exact List.filter_congr fun other _ => Bool.and_comm _ _
    · apply List.filter_congr
      intro other _
      by_cases heq : other=hash
      · subst heq
        have idle : self.blocks contract other=false := by
          rw [blocks,(remove_eq_some hr).1]
          simp [hc]
        simp [idle]
      · simp [heq]

theorem pushProof (h : Queued order self) (hash : TxHash) (index : BlobIndex)
    (proof : ProgramId × HyleOutput) : Queued order (self.pushProof hash index proof) where
  nodup := h.nodup
  known := by
    intro other tx ht
    obtain old|new := getElem?_pushProof ht
    · exact h.known other tx old
    · obtain ⟨_,old,ho,_⟩ := new
      exact h.known other old ho
  queue := by
    intro contract
    rw [txOrder_pushProof,h.queue]
    exact List.filter_congr fun other _ => (blocks_pushProof contract other).symm

theorem add (h : Queued order self) {tx : UnsettledBlobTransaction} {next : OrderedTxMap}
    {isNext : Bool} (ha : self.add tx=some (next,isNext)) :
    Queued (NodeState.resequence order tx.hash) next where
  nodup := by
    unfold NodeState.resequence
    rw [List.nodup_append]
    refine ⟨h.nodup.filter _,List.nodup_singleton _,?_⟩
    intro a ha b hb
    obtain rfl := List.mem_singleton.mp hb
    simpa using (List.mem_filter.mp ha).2
  known := by
    intro hash found hf
    unfold NodeState.resequence
    by_cases heq : hash=tx.hash
    · simp [heq]
    · have apart : compare tx.hash hash≠.eq := fun hc =>
        heq (Std.LawfulEqOrd.eq_of_compare hc).symm
      rw [add_eq_some ha,Std.ExtTreeMap.getElem?_insert,if_neg apart] at hf
      have old := h.known hash found hf
      simp [heq,old]
  queue := by
    intro contract
    obtain ⟨fresh,queues⟩ := txOrder_add ha
    have old : (order.filter fun h => h≠tx.hash).filter (next.blocks contract)=
        order.filter (self.blocks contract) := by
      rw [List.filter_filter]
      apply List.filter_congr
      intro other _
      rw [blocks_add ha]
      by_cases heq : other=tx.hash
      · subst heq
        have idle : self.blocks contract tx.hash=false := by
          rw [blocks,fresh]
          rfl
        simp [idle]
      · simp [heq]
    have new : [tx.hash].filter (next.blocks contract)=
        if contract∈tx.blockedContracts then [tx.hash] else [] := by
      rw [List.filter_singleton,blocks_add ha,if_pos rfl]
      by_cases hc : contract∈tx.blockedContracts <;> simp [hc]
    rw [queues,h.queue,NodeState.resequence,List.filter_append,old,new]
    split_ifs <;> simp

theorem takeQueue {contract : ContractName} {fuel : Nat} (h : Queued order self) :
    Queued order (takeQueue contract fuel self).2 := by
  induction fuel generalizing self with
  | zero => exact h
  | succ fuel ih =>
    unfold OrderedTxMap.takeQueue
    split
    · exact h
    · next tx next hr =>
      obtain ⟨hash,_,hn⟩ := Option.bind_eq_some_iff.mp hr
      exact ih (h.remove hn)

/-- The first of a queue is the first of the transactions in it. -/
theorem head_eq_iff (h : Queued order self) {contract : ContractName} {hash : TxHash}
    (hb : self.blocks contract hash=true) (hk : hash∈order) :
    self.getNextUnsettledTx contract=some hash ↔
      ∀ other,self.blocks contract other=true → ¬[other,hash].Sublist order := by
  have mem : hash∈order.filter (self.blocks contract) := List.mem_filter.mpr ⟨hk,hb⟩
  have nodup := h.nodup.filter (self.blocks contract)
  unfold getNextUnsettledTx
  rw [h.queue]
  constructor
  · intro hh other ho hs
    have sub := hs.filter (self.blocks contract)
    rw [List.filter_cons_of_pos ho,List.filter_cons_of_pos hb,List.filter_nil] at sub
    obtain ⟨rest,hr⟩ := List.head?_eq_some_iff.mp hh
    rw [hr] at sub nodup
    have later : hash∈rest := by
      cases sub with
      | cons _ tail => exact tail.subset (by simp)
      | cons_cons _ tail => exact tail.subset (by simp)
    exact (List.nodup_cons.mp nodup).1 later
  · intro first
    cases hq : order.filter (self.blocks contract) with
    | nil =>
      rw [hq] at mem
      simp at mem
    | cons other rest =>
      have ho : self.blocks contract other=true :=
        (List.mem_filter.mp (hq ▸ List.mem_cons_self : other∈_)).2
      rw [hq] at mem
      obtain rfl|later := List.mem_cons.mp mem
      · rfl
      · have sub : [other,hash].Sublist (other::rest) :=
          List.Sublist.cons_cons other (List.singleton_sublist.mpr later)
        rw [← hq] at sub
        exact absurd (sub.trans List.filter_sublist) (first other ho)

end Queued

end OrderedTxMap

namespace NodeState

open OrderedTxMap

/-- A property of the pending transactions as a whole that removals and proofs keep. -/
structure Stable (I : OrderedTxMap → Prop) : Prop where
  remove : ∀ pending hash tx next,pending.remove hash=some (tx,next) → I pending → I next
  pushProof : ∀ (pending : OrderedTxMap) hash index proof,I pending →
    I (pending.pushProof hash index proof)

namespace Stable

variable {I : OrderedTxMap → Prop}

theorem takeQueue (hs : Stable I) {contract : ContractName} {fuel : Nat}
    {pending : OrderedTxMap} (h : I pending) :
    I (OrderedTxMap.takeQueue contract fuel pending).2 := by
  induction fuel generalizing pending with
  | zero => exact h
  | succ fuel ih =>
    unfold OrderedTxMap.takeQueue
    split
    · exact h
    · next tx next hr =>
      obtain ⟨hash,_,hn⟩ := Option.bind_eq_some_iff.mp hr
      exact ih (hs.remove _ _ _ _ hn h)

theorem applyContractChange (hs : Stable I) {bth : TxHash} {work : Work}
    {change : ContractName × ModifiedContractData} (h : I work.pending) :
    I (NodeState.applyContractChange bth work change).pending := by
  obtain ⟨contractName,contract,fields,sideEffects⟩ := change
  cases contract with
  | some contract => exact h
  | none =>
    have taken : I (work.pending.removeAll contractName).2 := hs.takeQueue h
    exact List.foldlRecOn (motive := fun work : Work => I work.pending) _ _ taken
      fun _ hw _ _ => hw

theorem onSettledBlobTx (hs : Stable I) {bth : TxHash} {tx : UnsettledBlobTransaction}
    {work : Work} {result : Except Unit SettlementResult} (h : I work.pending) :
    I (NodeState.onSettledBlobTx bth tx work result).1.pending := by
  cases result with
  | error e => exact h
  | ok result =>
    have settled : I (settleContracts bth tx result work).pending :=
      List.foldlRecOn (motive := fun work : Work => I work.pending) _ _ h
        fun _ hw _ _ => hs.applyContractChange hw
    refine List.foldlRecOn (motive := fun state : Work × TxHashSet => I state.1.pending)
      _ _ settled ?_
    intro state hw update _
    unfold applyNuke
    dsimp only
    split
    · exact hw
    · exact hs.pushProof _ _ _ _ hw

theorem settleTx (hs : Stable I) {env : Environment} {bth : TxHash} {work : Work}
    (h : I work.pending) : I (NodeState.settleTx env bth work).1.pending := by
  obtain ⟨_,same⟩|⟨tx,rest,result,settled,hr,eq,res⟩ := settleTx_cases env bth work
  · rw [same]
    exact h
  · have gone : I settled.pending := eq ▸ hs.remove _ _ _ _ hr h
    rw [res]
    exact hs.onSettledBlobTx gone

end Stable

/-- In every run, the queues are in the order of sequencing. -/
theorem preserved_queued (env : Environment) (seen : TransactionData → Prop) :
    Preserved env seen Queued where
  start := Queued.start
  sequence _ _ _ _ _ _ _ _ _ _ h ha := h.add ha
  prove _ _ _ _ _ _ _ _ _ h := h.pushProof _ _ _
  settle _ _ _ h :=
    Stable.settleTx ⟨fun _ _ _ _ hr hq => Queued.remove hq hr,
      fun _ _ _ _ hq => Queued.pushProof hq _ _ _⟩ h
  timeOut _ _ _ _ _ hr h := h.remove hr

end NodeState

end TruthSeeker
