import Mathlib.Data.List.Perm.Subperm
import TruthSeeker.NodeState.State

namespace TruthSeeker

theorem mem_of_getElem?_ofList {κ ν : Type} [Ord κ] [Std.TransOrd κ] [Std.LawfulEqOrd κ]
    {entries : List (κ × ν)} {k : κ} {v : ν}
    (h : (Std.ExtTreeMap.ofList entries)[k]?=some v) : (k,v)∈entries := by
  classical
  rw [Std.ExtTreeMap.ofList_eq_insertMany_empty,Std.ExtTreeMap.getElem?_insertMany_list] at h
  simp only [Std.ExtTreeMap.getElem?_empty,Option.or_none,
    List.findSomeRev?_eq_findSome?_reverse] at h
  obtain ⟨entry,hm,he⟩ := List.exists_of_findSome?_eq_some h
  split_ifs at he with hc
  obtain rfl := Std.LawfulEqOrd.eq_of_compare hc
  obtain rfl := Option.some.inj he
  exact List.mem_reverse.mp hm

namespace OrderedTxMap

/-- Every pending transaction has the property. -/
def All (P : UnsettledBlobTransaction → Prop) (self : OrderedTxMap) : Prop :=
  ∀ (hash : TxHash) (tx : UnsettledBlobTransaction),self.map[hash]?=some tx → P tx

variable {P : UnsettledBlobTransaction → Prop} {self : OrderedTxMap}

theorem all_empty : All P empty := by
  intro hash tx h
  simp [empty] at h

theorem All.add {tx : UnsettledBlobTransaction} {next : OrderedTxMap} {isNext : Bool}
    (h : All P self) (ht : P tx) (ha : self.add tx=some (next,isNext)) : All P next := by
  intro hash found hf
  rw [add_eq_some ha,Std.ExtTreeMap.getElem?_insert] at hf
  split_ifs at hf
  · obtain rfl := Option.some.inj hf
    exact ht
  · exact h hash found hf

theorem All.remove {hash : TxHash} {tx : UnsettledBlobTransaction} {next : OrderedTxMap}
    (h : All P self) (hr : self.remove hash=some (tx,next)) : P tx ∧ All P next := by
  obtain ⟨ht,hm⟩ := remove_eq_some hr
  refine ⟨h hash tx ht,?_⟩
  intro other found hf
  rw [hm,Std.ExtTreeMap.getElem?_erase] at hf
  split_ifs at hf
  exact h other found hf

theorem All.pushProof {hash : TxHash} {index : BlobIndex} {proof : ProgramId × HyleOutput}
    (h : All P self)
    (hp : ∀ tx,self.map[hash]?=some tx → P tx → P (tx.pushProof index proof)) :
    All P (self.pushProof hash index proof) := by
  intro other tx ht
  obtain old|new := getElem?_pushProof ht
  · exact h other tx old
  · obtain ⟨rfl,old,ho,rfl⟩ := new
    exact hp old ho (h other old ho)

theorem All.takeQueue {contract : ContractName} {fuel : Nat} (h : All P self) :
    All P (takeQueue contract fuel self).2 := by
  induction fuel generalizing self with
  | zero => exact h
  | succ fuel ih =>
    unfold OrderedTxMap.takeQueue
    split
    · exact h
    · next tx next hr =>
      obtain ⟨hash,_,hn⟩ := Option.bind_eq_some_iff.mp hr
      exact ih (h.remove hn).2

/-- Fewer hashes, fewer transactions. -/
theorem size_le_of_all {other : OrderedTxMap}
    (h : All (fun tx => (other.map[tx.hash]?).isSome) self) : self.map.size≤other.map.size := by
  have sub : self.map.keys ⊆ other.map.keys := by
    intro hash hk
    rw [Std.ExtTreeMap.mem_keys,Std.ExtTreeMap.mem_iff_isSome_getElem?,
      Option.isSome_iff_exists] at hk
    obtain ⟨tx,ht⟩ := hk
    have found : (other.map[tx.hash]?).isSome := h hash tx ht
    rw [self.hash_eq hash tx ht] at found
    rwa [Std.ExtTreeMap.mem_keys,Std.ExtTreeMap.mem_iff_isSome_getElem?]
  have nodup : self.map.keys.Nodup := Std.ExtTreeMap.nodup_keys
  have le := (List.subperm_of_subset nodup sub).length_le
  rwa [Std.ExtTreeMap.length_keys,Std.ExtTreeMap.length_keys] at le

end OrderedTxMap

namespace NodeState

open OrderedTxMap

/-- The output may take the current state of the contract for its two states. -/
def Adapts (output : HyleOutput) (update : ProgramId × HyleOutput) : Prop :=
  update.2=output ∨ output.success=false ∧ ∃ state,
    update.2={ output with initialState := state,nextState := state }

/-- The output that a settled transaction forces upon the transaction of the hash. -/
def Forces (settledTx : UnsettledBlobTransaction) (hash : TxHash)
    (update : ProgramId × HyleOutput) : Prop :=
  ∃ outputs output,(txsToNuke settledTx)[hash]?=some outputs ∧ output∈outputs ∧
    Adapts output update

/-- What a property of pending transactions must withstand for all blocks that carry only
these transactions. -/
structure Invariant (env : Environment) (seen : TransactionData → Prop)
    (P : UnsettledBlobTransaction → Prop) : Prop where
  sequenced : ∀ store parentDpHash tx txContext,seen (.blob tx) →
    HyleTld.validateHyleContractBlobs env tx=.ok () →
    P (unsettledBlobTransaction env store parentDpHash tx txContext)
  proven : ∀ proofTx entry tx,seen (.verifiedProof proofTx) → entry∈proofTx.provenBlobs →
    entry.blobTxHash=tx.hash → verifyHyleOutput env tx entry.hyleOutput=.ok () → P tx →
    P (tx.pushProof entry.hyleOutput.index (entry.programId,entry.hyleOutput))
  forced : ∀ settledTx tx update,P settledTx → P tx → Forces settledTx tx.hash update →
    P (tx.pushProof update.2.index update)

section Settled
variable {P : UnsettledBlobTransaction → Prop} {bth : TxHash} {settledTx : UnsettledBlobTransaction}

/-- Only the forced outputs matter when a transaction has been settled. -/
def WithstandsForce (P : UnsettledBlobTransaction → Prop) (settledTx : UnsettledBlobTransaction) :
    Prop :=
  ∀ tx update,P tx → Forces settledTx tx.hash update → P (tx.pushProof update.2.index update)

theorem all_applyContractChange {work : Work} {change : ContractName × ModifiedContractData}
    (h : All P work.pending) : All P (applyContractChange bth work change).pending := by
  obtain ⟨contractName,contract,fields,sideEffects⟩ := change
  cases contract with
  | some contract => exact h
  | none =>
    have taken : All P (work.pending.removeAll contractName).2 := h.takeQueue
    exact List.foldlRecOn (motive := fun work : Work => All P work.pending) _ _ taken
      fun _ hw _ _ => hw

theorem nukeUpdate_eq_some {store : NodeStateStore} {tx : UnsettledBlobTransaction}
    {output : HyleOutput} {update : ProgramId × HyleOutput}
    (h : nukeUpdate store tx output=some update) : Adapts output update := by
  unfold nukeUpdate at h
  simp only [Option.bind_eq_bind,Option.bind_eq_some_iff] at h
  obtain ⟨metadata,_,contract,_,hu⟩ := h
  split_ifs at hu with hs
  · exact Or.inl (congrArg Prod.snd (Option.some.inj hu)).symm
  · exact Or.inr ⟨by simpa using hs,contract.state,(congrArg Prod.snd (Option.some.inj hu)).symm⟩

theorem forces_of_mem_nukeUpdates {store : NodeStateStore} {hash : TxHash}
    {update : ProgramId × HyleOutput}
    (h : (hash,update)∈nukeUpdates store (txsToNuke settledTx)) : Forces settledTx hash update := by
  simp only [nukeUpdates,List.mem_flatMap] at h
  obtain ⟨nuke,hn,hm⟩ := h
  split at hm
  · next tx ht =>
    obtain ⟨found,hf,he⟩ := List.mem_map.mp hm
    obtain ⟨rfl,rfl⟩ := Prod.mk.inj he
    obtain ⟨output,ho,hu⟩ := List.mem_filterMap.mp hf
    have listed := Std.ExtTreeMap.mem_toList_iff_getElem?_eq_some.mp hn
    exact ⟨nuke.2,output,listed,ho,nukeUpdate_eq_some hu⟩
  · simp at hm

theorem all_applyNuke (hw : WithstandsForce P settledTx)
    {state : Work × TxHashSet} {update : TxHash × ProgramId × HyleOutput}
    (hu : Forces settledTx update.1 update.2) (h : All P state.1.pending) :
    All P (applyNuke bth state update).1.pending := by
  unfold applyNuke
  dsimp only
  split
  · exact h
  · apply h.pushProof
    intro tx ht hp
    rw [← state.1.pending.hash_eq update.1 tx ht] at hu
    exact hw tx update.2 hp hu

theorem all_settleContracts {result : SettlementResult} {work : Work} (h : All P work.pending) :
    All P (settleContracts bth settledTx result work).pending :=
  List.foldlRecOn (motive := fun work : Work => All P work.pending) _ _ h
    fun _ hw _ _ => all_applyContractChange hw

theorem all_forceOutputs (hw : WithstandsForce P settledTx) {work : Work}
    (h : All P work.pending) : All P (forceOutputs bth settledTx work).1.pending := by
  unfold forceOutputs
  apply List.foldlRecOn
    (motive := fun state : Work × TxHashSet => All P state.1.pending)
  · exact h
  · intro state hs update hm
    exact all_applyNuke hw (forces_of_mem_nukeUpdates hm) hs

theorem all_onSettledBlobTx (hw : WithstandsForce P settledTx) {work : Work}
    {txResult : Except Unit SettlementResult} (h : All P work.pending) :
    All P (onSettledBlobTx bth settledTx work txResult).1.pending := by
  cases txResult with
  | error e => exact h
  | ok result => exact all_forceOutputs hw (all_settleContracts h)

end Settled

variable {env : Environment} {seen : TransactionData → Prop} {P : UnsettledBlobTransaction → Prop}

/-- One round of settlement: nothing is settled, or the transaction leaves the map and only
forced outputs are added. -/
theorem settleTx_cases (env : Environment) (bth : TxHash) (work : Work) :
    ((settleTx env bth work).2=none ∧ (settleTx env bth work).1.pending=work.pending) ∨
    ∃ tx rest result settled,work.pending.remove bth=some (tx,rest) ∧
      settled.pending=rest ∧ (settleTx env bth work)=
        ((onSettledBlobTx bth tx settled result).1,
          some (onSettledBlobTx bth tx settled result).2) := by
  unfold settleTx
  cases hr : work.pending.remove bth with
  | none => exact Or.inl ⟨rfl,rfl⟩
  | some removed =>
    obtain ⟨tx,rest⟩ := removed
    dsimp only
    cases (tryToSettleBlobTx env work.store bth tx).2 with
    | error e => exact Or.inl ⟨rfl,rfl⟩
    | ok result => exact Or.inr ⟨tx,rest,result,_,rfl,rfl,rfl⟩

theorem all_settleTx (hi : Invariant env seen P) {bth : TxHash} {work : Work}
    (h : All P work.pending) : All P (settleTx env bth work).1.pending := by
  obtain ⟨_,same⟩|⟨tx,rest,result,settled,hr,hs,eq⟩ := settleTx_cases env bth work
  · rw [same]
    exact h
  · obtain ⟨ht,hrest⟩ := h.remove hr
    rw [← hs] at hrest
    rw [eq]
    exact all_onSettledBlobTx (fun other update => hi.forced tx other update ht) hrest

theorem all_settleLoop (hi : Invariant env seen P) {fuel : Nat} {work : Work}
    {toTry failed : TxHashSet} (h : All P work.pending) :
    All P (settleLoop env fuel work toTry failed).1.pending := by
  induction fuel generalizing work toTry failed with
  | zero => exact h
  | succ fuel ih =>
    unfold settleLoop
    cases toTry.toList.head? with
    | none => exact h
    | some bth =>
      have step : All P (settleTx env bth work).1.pending := all_settleTx hi h
      dsimp only
      cases (settleTx env bth work).2 with
      | none => exact ih step
      | some next => exact ih step

section Bound
variable {rest : OrderedTxMap} {bth : TxHash} {tx : UnsettledBlobTransaction}

/-- A pending transaction has its hash among those of an earlier map. -/
def Known (rest : OrderedTxMap) (tx : UnsettledBlobTransaction) : Prop :=
  (rest.map[tx.hash]?).isSome

theorem withstandsForce_known : WithstandsForce (Known rest) tx := by
  intro other update known _
  rwa [Known,UnsettledBlobTransaction.hash_pushProof]

theorem all_known : All (Known rest) rest := by
  intro hash tx ht
  rw [Known,rest.hash_eq hash tx ht,ht]
  rfl

theorem known_nextTxs {hash : TxHash} (h : hash∈nextTxs rest tx) : (rest.map[hash]?).isSome := by
  classical
  rw [nextTxs,Std.ExtTreeSet.mem_ofList,List.contains_iff_mem] at h
  obtain ⟨metadata,_,hn⟩ := List.mem_filterMap.mp h
  obtain ⟨found,hf⟩ := exists_of_getNextUnsettledTx hn
  rw [hf]
  rfl

theorem known_forceOutputs {work : Work} (h : All (Known rest) work.pending) :
    ∀ hash ∈ (forceOutputs bth tx work).2,(rest.map[hash]?).isSome := by
  have both : All (Known rest) (forceOutputs bth tx work).1.pending ∧
      ∀ hash ∈ (forceOutputs bth tx work).2,(rest.map[hash]?).isSome := by
    unfold forceOutputs
    apply List.foldlRecOn (motive := fun state : Work × TxHashSet =>
      All (Known rest) state.1.pending ∧ ∀ hash ∈ state.2,(rest.map[hash]?).isSome)
    · exact ⟨h,by simp⟩
    · intro state hs update hm
      have step : All (Known rest) (applyNuke bth state update).1.pending :=
        all_applyNuke withstandsForce_known (forces_of_mem_nukeUpdates hm) hs.1
      refine ⟨step,?_⟩
      unfold applyNuke
      dsimp only
      split
      · exact hs.2
      · next metadata hg =>
        obtain ⟨found,hf,_⟩ := Option.bind_eq_some_iff.mp hg
        have known : (rest.map[found.hash]?).isSome := hs.1 update.1 found hf
        rw [state.1.pending.hash_eq update.1 found hf] at known
        intro hash hh
        obtain eq|old := Std.ExtTreeSet.mem_insert.mp hh
        · rwa [← Std.LawfulEqOrd.eq_of_compare eq]
        · exact hs.2 hash old
  exact both.2

theorem size_le_of_known {hashes : TxHashSet} (h : ∀ hash ∈ hashes,(rest.map[hash]?).isSome) :
    hashes.size≤ rest.map.size := by
  have sub : hashes.toList ⊆ rest.map.keys := by
    intro hash hm
    rw [Std.ExtTreeMap.mem_keys,Std.ExtTreeMap.mem_iff_isSome_getElem?]
    exact h hash (Std.ExtTreeSet.mem_toList.mp hm)
  have nodup : hashes.toList.Nodup := by
    have distinct := Std.ExtTreeSet.distinct_toList (t := hashes)
    refine distinct.imp ?_
    rintro x y hd rfl
    exact hd Std.ReflOrd.compare_self
  have le := (List.subperm_of_subset nodup sub).length_le
  rwa [Std.ExtTreeSet.length_toList,Std.ExtTreeMap.length_keys] at le

/-- A settled transaction is gone, and all that is tried next was there before. -/
theorem settleTx_decreases {work : Work} {next : TxHashSet}
    (h : (settleTx env bth work).2=some next) :
    (settleTx env bth work).1.pending.map.size<work.pending.map.size ∧
      next.size<work.pending.map.size := by
  obtain ⟨none,_⟩|⟨tx,rest,result,settled,hr,rfl,eq⟩ := settleTx_cases env bth work
  · rw [none] at h
    cases h
  · have smaller := size_remove hr
    rw [eq] at h ⊢
    obtain rfl := Option.some.inj h
    have kept : All (Known settled.pending) (onSettledBlobTx bth tx settled result).1.pending :=
      all_onSettledBlobTx withstandsForce_known all_known
    have hs := size_le_of_all kept
    have known : ∀ hash ∈ (onSettledBlobTx bth tx settled result).2,
        (settled.pending.map[hash]?).isSome := by
      cases result with
      | error e => exact fun hash => known_nextTxs
      | ok result =>
        intro hash hm
        obtain next|forced := Std.ExtTreeSet.mem_union_iff.mp hm
        · exact known_nextTxs next
        · exact known_forceOutputs (all_settleContracts all_known) hash forced
    have hn := size_le_of_known known
    dsimp only
    omega

theorem size_erase_of_head {toTry : TxHashSet} (hm : toTry.toList.head?=some bth) :
    (toTry.erase bth).size+1=toTry.size := by
  have mem : bth∈toTry := Std.ExtTreeSet.mem_toList.mp (List.mem_of_head? hm)
  have pos : toTry.size≠0 := by
    intro hz
    rw [Std.ExtTreeSet.eq_empty_iff_size_eq_zero.mpr hz] at mem
    simp at mem
  rw [Std.ExtTreeSet.size_erase,if_pos (Std.ExtTreeSet.mem_iff_contains.mp mem)]
  omega

/-- A round in vain leaves one transaction less to try. -/
theorem settleBound_failed {work : Work} {toTry : TxHashSet}
    (hm : toTry.toList.head?=some bth) (hn : (settleTx env bth work).2=none) :
    settleBound (settleTx env bth work).1 (toTry.erase bth)<settleBound work toTry := by
  have erased := size_erase_of_head hm
  have same : (settleTx env bth work).1.pending=work.pending := by
    obtain ⟨_,same⟩|⟨_,_,_,_,_,_,eq⟩ := settleTx_cases env bth work
    · exact same
    · rw [eq] at hn
      cases hn
  rw [settleBound,settleBound,same]
  omega

/-- A round that settles leaves fewer pending transactions, which outweighs those to try. -/
theorem settleBound_settled {work : Work} {toTry next : TxHashSet}
    (hm : toTry.toList.head?=some bth) (hn : (settleTx env bth work).2=some next) :
    settleBound (settleTx env bth work).1 (toTry.erase bth ∪ next)<settleBound work toTry := by
  have erased := size_erase_of_head hm
  obtain ⟨hw,hs⟩ := settleTx_decreases hn
  have union : (toTry.erase bth ∪ next).size≤(toTry.erase bth).size+next.size :=
    Std.ExtTreeSet.size_union_le_size_add_size
  have square : next.size+(settleTx env bth work).1.pending.map.size^2≤
      work.pending.map.size^2 := by
    nlinarith
  unfold settleBound
  omega

theorem toList_eq_nil_of_settleBound {work : Work} {toTry : TxHashSet}
    (hf : settleBound work toTry≤0) : toTry.toList=[] := by
  have empty : toTry.size=0 := by
    unfold settleBound at hf
    omega
  exact List.eq_nil_of_length_eq_zero (Std.ExtTreeSet.length_toList.trans empty)

theorem settleLoop_succ {fuel : Nat} {work : Work} {toTry failed : TxHashSet}
    (hf : settleBound work toTry≤fuel) :
    settleLoop env (fuel+1) work toTry failed=settleLoop env fuel work toTry failed := by
  induction fuel generalizing work toTry failed with
  | zero =>
    have none := toList_eq_nil_of_settleBound hf
    simp [settleLoop,none]
  | succ fuel ih =>
    rw [settleLoop]
    conv_rhs => rw [settleLoop]
    cases hm : toTry.toList.head? with
    | none => rfl
    | some bth =>
      dsimp only
      cases hn : (settleTx env bth work).2 with
      | none =>
        have less := settleBound_failed hm hn
        exact ih (by omega)
      | some next =>
        have less := settleBound_settled hm hn
        exact ih (by omega)

/-- The bound is never reached: more rounds give the same result. -/
theorem settleLoop_eq {fuel : Nat} {work : Work} {toTry : TxHashSet}
    (hf : settleBound work toTry≤fuel) :
    settleLoop env fuel work toTry ∅=settleTxsUntilDone env work toTry := by
  induction fuel, hf using Nat.le_induction with
  | base => rfl
  | succ fuel hf ih => rw [settleLoop_succ hf,ih]

end Bound

theorem scheduleTimeout_unsettledTransactions (store : NodeStateStore) (txHash : TxHash)
    (blobs : List Blob) :
    (scheduleTimeout store txHash blobs).unsettledTransactions=store.unsettledTransactions := by
  unfold scheduleTimeout
  repeat' split
  all_goals rfl

theorem rescheduleTimeout_unsettledTransactions (store : NodeStateStore) (txHash : TxHash) :
    (rescheduleTimeout store txHash).unsettledTransactions=store.unsettledTransactions := by
  unfold rescheduleTimeout
  split
  · exact scheduleTimeout_unsettledTransactions store txHash _
  · rfl

theorem all_settleAndReschedule (hi : Invariant env seen P) {work : Work}
    {toTry : TxHashSet} (h : All P work.pending) :
    All P (settleAndReschedule env work toTry).pending := by
  have settled : All P (settleTxsUntilDone env work toTry).1.pending := all_settleLoop hi h
  exact List.foldlRecOn
    (motive := fun store : NodeStateStore => All P store.unsettledTransactions) _ _ settled
    fun _ hs _ _ => by rw [rescheduleTimeout_unsettledTransactions]; exact hs

theorem all_clearTimeouts (hi : Invariant env seen P) {work : Work} (h : All P work.pending) :
    All P (clearTimeouts env work).pending := by
  refine List.foldlRecOn (motive := fun state : Work × List TxHash => All P state.1.pending)
    _ _ h ?_
  intro state hs hash _
  unfold clearTimeout
  split
  · exact hs
  · next tx rest hr =>
    have hrest := (hs.remove hr).2
    exact all_settleAndReschedule hi hrest

theorem all_handleBlobProof (hi : Invariant env seen P) {proofTxHash : TxHash}
    {proofTx : VerifiedProofTransaction} (ht : seen (.verifiedProof proofTx)) {work : Work}
    {entry : BlobProofOutput} (he : entry∈proofTx.provenBlobs) (h : All P work.pending) :
    All P (handleBlobProof env proofTxHash work entry).1.pending := by
  unfold handleBlobProof
  dsimp only
  cases hg : work.pending.getForSettlement entry.blobTxHash with
  | none => exact h
  | some found =>
    obtain ⟨unsettledTx,shouldSettle⟩ := found
    obtain ⟨tx,hf,hp⟩ := Option.map_eq_some_iff.mp hg
    obtain ⟨rfl,_⟩ := Prod.mk.inj hp
    have hash : tx.hash=entry.blobTxHash := work.pending.hash_eq entry.blobTxHash tx hf
    dsimp only
    cases hv : verifyHyleOutput env tx entry.hyleOutput with
    | error e => exact h
    | ok u =>
      dsimp only
      split
      · exact h
      · apply h.pushProof
        intro found hm hP
        obtain rfl := Option.some.inj (hf.symm.trans hm)
        exact hi.proven proofTx entry tx ht he hash.symm hv hP

theorem all_handleProvenBlobs (hi : Invariant env seen P) {txId : TxId}
    {proofTx : VerifiedProofTransaction} (ht : seen (.verifiedProof proofTx))
    {state : Work × TxHashSet} {entry : BlobProofOutput}
    (he : entry∈proofTx.provenBlobs) (h : All P state.1.pending) :
    All P (handleProvenBlobs env txId state entry).1.pending := by
  have step : All P (handleBlobProof env txId.txHash state.1 entry).1.pending :=
    all_handleBlobProof hi ht he h
  unfold handleProvenBlobs
  dsimp only
  split <;> exact step

theorem checkBlobTx_eq_ok {store : NodeStateStore} {tx : BlobTransaction} {u : Unit}
    (h : checkBlobTx env store tx=.ok u) : HyleTld.validateHyleContractBlobs env tx=.ok () := by
  unfold checkBlobTx at h
  repeat' split at h
  all_goals first | contradiction | assumption

theorem all_handleBlobTx (hi : Invariant env seen P) {store next : NodeStateStore}
    {parentDpHash : DataProposalHash} {tx : BlobTransaction} {txContext : TxContext}
    {handled : BlobTxHandled} (ht : seen (.blob tx)) (h : All P store.unsettledTransactions)
    (hh : handleBlobTx env store parentDpHash tx txContext=.ok (handled,next)) :
    All P next.unsettledTransactions := by
  unfold handleBlobTx at hh
  cases hc : checkBlobTx env store tx with
  | error e => simp [hc] at hh
  | ok u =>
    have valid := checkBlobTx_eq_ok hc
    simp only [hc] at hh
    split at hh
    · obtain ⟨_,rfl⟩ := Prod.mk.inj (Except.ok.inj hh)
      exact h
    · next pending isNext ha =>
      obtain ⟨_,rfl⟩ := Prod.mk.inj (Except.ok.inj hh)
      rw [scheduleTimeout_unsettledTransactions]
      exact h.add (hi.sequenced store parentDpHash tx txContext ht valid) ha

theorem all_handleTransaction (hi : Invariant env seen P) {laneId : LaneId} {txId : TxId}
    {work : Work} {data : TransactionData} (hd : seen data) (h : All P work.pending) :
    All P (handleTransaction env laneId txId work data).pending := by
  cases data with
  | proof tx => exact h
  | verifiedProof proofTx =>
    have proven : All P (proofTx.provenBlobs.foldl (handleProvenBlobs env txId) (work,∅)).1.pending :=
      List.foldlRecOn
        (motive := fun state : Work × TxHashSet => All P state.1.pending) _ _ h
        fun _ hs _ hm => all_handleProvenBlobs hi hd hm hs
    exact all_settleAndReschedule hi proven
  | blob tx =>
    unfold handleTransaction
    dsimp only
    split
    · next hh => exact all_settleAndReschedule hi (all_handleBlobTx hi hd h hh)
    · next hh => exact all_handleBlobTx hi hd h hh
    · next hh => exact all_handleBlobTx hi hd h hh
    · exact h

/-- One block keeps the property of all pending transactions. -/
theorem all_handleSignedBlock (hi : Invariant env seen P) {store : NodeStateStore}
    {signedBlock : SignedBlock}
    (hb : ∀ entry ∈ signedBlock.iterTxsWithId env.sha3,seen entry.2.2.transactionData)
    (h : All P store.unsettledTransactions) :
    All P (handleSignedBlock env store signedBlock).1.unsettledTransactions := by
  unfold handleSignedBlock
  split
  · exact h
  · have cleared : All P (clearTimeouts env (beginBlock env store signedBlock)).pending :=
      all_clearTimeouts hi h
    exact List.foldlRecOn (motive := fun work : Work => All P work.pending) _ _ cleared
      fun _ hw entry hm => all_handleTransaction hi (hb entry hm) hw

/-- In any run, all pending transactions keep the property. -/
theorem all_handleSignedBlocks (hi : Invariant env seen P) {store : NodeStateStore}
    {signedBlocks : List SignedBlock}
    (hb : ∀ signedBlock ∈ signedBlocks,∀ entry ∈ signedBlock.iterTxsWithId env.sha3,
      seen entry.2.2.transactionData)
    (h : All P store.unsettledTransactions) :
    All P (handleSignedBlocks env store signedBlocks).unsettledTransactions :=
  List.foldlRecOn (motive := fun store : NodeStateStore => All P store.unsettledTransactions)
    _ _ h fun _ hs signedBlock hm => all_handleSignedBlock hi (hb signedBlock hm) hs

end NodeState

end TruthSeeker
