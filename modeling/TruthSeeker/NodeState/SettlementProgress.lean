import TruthSeeker.NodeState.SettlementAccounting
import TruthSeeker.NodeState.SettlementSteps

namespace TruthSeeker.NodeState

open OrderedTxMap UnsettledBlobTransaction

/-- The pending transaction with the proofs that have been handled so far. -/
structure Holds (env : Environment) (handled : List BlobProofOutput)
    (tx held : UnsettledBlobTransaction) : Prop where
  same : held={ tx with blobs := held.blobs }
  blobs : ∀ index : BlobIndex,held.blobs[index]?.map UnsettledBlobMetadata.blob=
    tx.blobs[index]?.map UnsettledBlobMetadata.blob
  proofs : ∀ index proof,held.HoldsProof index proof ↔ HasProof env handled tx index proof

namespace Holds

variable {env : Environment} {handled : List BlobProofOutput}
  {tx held : UnsettledBlobTransaction}

theorem refl (env : Environment) (tx : UnsettledBlobTransaction) : Holds env [] tx tx where
  same := rfl
  blobs _ := rfl
  proofs index proof := by simp [hasProof_iff]

theorem hash (h : Holds env handled tx held) : held.hash=tx.hash := by
  rw [h.same]

theorem indexedBlobs (h : Holds env handled tx held) : held.indexedBlobs=tx.indexedBlobs := by
  have view : ∀ m : Std.ExtTreeMap BlobIndex UnsettledBlobMetadata,
      m.toList.map (fun entry => (entry.1,entry.2.blob))=(m.map fun _ v => v.blob).toList := by
    intro m
    rw [Std.ExtTreeMap.toList_map]
  have equal : (held.blobs.map fun _ v => v.blob)=tx.blobs.map fun _ v => v.blob := by
    apply Std.ExtTreeMap.ext_getElem?
    intro index
    rw [Std.ExtTreeMap.getElem?_map,Std.ExtTreeMap.getElem?_map]
    exact h.blobs index
  unfold UnsettledBlobTransaction.indexedBlobs
  rw [view,view,equal]

theorem contractNames (h : Holds env handled tx held) : held.contractNames=tx.contractNames := by
  unfold UnsettledBlobTransaction.contractNames
  rw [h.indexedBlobs]

theorem blockedContracts (h : Holds env handled tx held) (name : ContractName) :
    name∈held.blockedContracts ↔ name∈tx.blockedContracts := by
  have listed : ∀ other : UnsettledBlobTransaction,name∈other.blockedContracts ↔
      ∃ entry ∈ other.indexedBlobs,name∈entry.2.blockedContracts := by
    intro other
    rw [mem_blockedContracts]
    simp only [UnsettledBlobTransaction.indexedBlobs,List.mem_map]
    constructor
    · intro h
      obtain ⟨index,metadata,hm,hn⟩ := h
      have listed := Std.ExtTreeMap.mem_toList_iff_getElem?_eq_some.mpr hm
      exact ⟨_,⟨_,listed,rfl⟩,hn⟩
    · intro h
      obtain ⟨_,⟨entry,hm,rfl⟩,hn⟩ := h
      exact ⟨entry.1,entry.2,Std.ExtTreeMap.mem_toList_iff_getElem?_eq_some.mp hm,hn⟩
  rw [listed,listed,h.indexedBlobs]

theorem verifyHyleOutput (h : Holds env handled tx held) (hyleOutput : HyleOutput) :
    NodeState.verifyHyleOutput env held hyleOutput=
      NodeState.verifyHyleOutput env tx hyleOutput := by
  have looked := h.blobs hyleOutput.index
  rw [h.same]
  unfold NodeState.verifyHyleOutput
  dsimp only
  cases hb : held.blobs[hyleOutput.index]? with
  | none =>
    rw [hb,Option.map_none,eq_comm,Option.map_eq_none_iff] at looked
    rw [looked]
  | some metadata =>
    rw [hb,Option.map_some,eq_comm,Option.map_eq_some_iff] at looked
    obtain ⟨before,found,same⟩ := looked
    rw [found]
    dsimp only
    rw [same]

theorem accepts (h : Holds env handled tx held) (entry : BlobProofOutput) :
    NodeState.accepts env held entry=NodeState.accepts env tx entry := by
  unfold NodeState.accepts
  rw [h.verifyHyleOutput,h.hash]

theorem of_refused (h : Holds env handled tx held) {entry : BlobProofOutput}
    (hr : NodeState.accepts env tx entry=false) : Holds env (handled++[entry]) tx held where
  same := h.same
  blobs := h.blobs
  proofs index proof := by
    rw [h.proofs,hasProof_iff,hasProof_iff]
    simp [hr]

end Holds

theorem holdsProof_pushProof {tx : UnsettledBlobTransaction} {index i : BlobIndex}
    {proof p : ProgramId × HyleOutput} (hi : (tx.blobs[index]?).isSome) :
    (tx.pushProof index proof).HoldsProof i p ↔
      tx.HoldsProof i p ∨ i=index ∧ p=proof := by
  obtain ⟨metadata,hm⟩ := Option.isSome_iff_exists.mp hi
  unfold HoldsProof UnsettledBlobTransaction.pushProof
  rw [hm]
  dsimp only
  rw [Std.ExtTreeMap.getElem?_insert]
  by_cases heq : i=index
  · subst heq
    simp [hm]
  · have apart : compare index i≠.eq := fun h => heq (Std.LawfulEqOrd.eq_of_compare h).symm
    simp [apart,heq]

theorem Holds.pushProof {env : Environment} {handled : List BlobProofOutput}
    {tx held : UnsettledBlobTransaction} (h : Holds env handled tx held)
    {entry : BlobProofOutput} (ha : NodeState.accepts env tx entry=true)
    (hi : (held.blobs[entry.hyleOutput.index]?).isSome) :
    Holds env (handled++[entry]) tx
      (held.pushProof entry.hyleOutput.index (entry.programId,entry.hyleOutput)) where
  same := by
    obtain ⟨metadata,hm⟩ := Option.isSome_iff_exists.mp hi
    unfold UnsettledBlobTransaction.pushProof
    rw [hm]
    dsimp only
    conv_lhs => rw [h.same]
  blobs := by
    intro index
    rw [← h.blobs]
    obtain ⟨metadata,hm⟩ := Option.isSome_iff_exists.mp hi
    unfold UnsettledBlobTransaction.pushProof
    rw [hm]
    dsimp only
    rw [Std.ExtTreeMap.getElem?_insert]
    split_ifs with heq
    · rw [← Std.LawfulEqOrd.eq_of_compare heq,hm]
      rfl
    · rfl
  proofs index proof := by
    rw [holdsProof_pushProof hi,h.proofs,hasProof_iff,hasProof_iff]
    simp only [List.mem_append,List.mem_singleton,or_and_right,exists_or,or_assoc]
    apply or_congr_right
    apply or_congr_right
    constructor
    · rintro ⟨rfl,rfl⟩
      exact ⟨entry,rfl,ha,rfl⟩
    · rintro ⟨other,rfl,_,eq⟩
      obtain ⟨rfl,rfl⟩ := Prod.mk.inj eq
      exact ⟨rfl,rfl⟩

section Failure
variable {env : Environment} {start : OrderedTxMap} {handled : List BlobProofOutput}
  {tx held : UnsettledBlobTransaction}

theorem nativeFailure_iff : nativeFailure tx=true ↔
    ∃ entry ∈ tx.indexedBlobs,entry.2.contractName∈NATIVE_VERIFIERS_CONTRACT_LIST ∧
      ∃ proof,tx.HoldsProof entry.1 proof ∧ proof.2.success=false := by
  simp only [nativeFailure,blobValues,UnsettledBlobTransaction.indexedBlobs,List.any_eq_true,
    List.mem_map,Bool.and_eq_true,List.contains_iff_mem,Bool.not_eq_true',HoldsProof]
  constructor
  · intro h
    obtain ⟨_,⟨entry,hm,rfl⟩,native,proof,hp,failure⟩ := h
    have found := Std.ExtTreeMap.mem_toList_iff_getElem?_eq_some.mp hm
    exact ⟨_,⟨entry,hm,rfl⟩,native,proof,⟨entry.2,found,hp⟩,failure⟩
  · intro h
    obtain ⟨_,⟨entry,hm,rfl⟩,native,proof,⟨metadata,found,hp⟩,failure⟩ := h
    have same := Std.ExtTreeMap.mem_toList_iff_getElem?_eq_some.mp hm
    obtain rfl := Option.some.inj (same.symm.trans found)
    exact ⟨_,⟨entry,hm,rfl⟩,native,proof,hp,failure⟩

/-- No proof that arrives makes a transaction one that is refused natively. -/
theorem Holds.nativeFailure (hs : Separated env start handled) (ht : tx∈pendingTxs start)
    (h : Holds env handled tx held) : nativeFailure held=NodeState.nativeFailure tx := by
  rw [Bool.eq_iff_iff,nativeFailure_iff,h.indexedBlobs]
  constructor
  · intro refused
    obtain ⟨entry,hm,native,proof,hp,failure⟩ := refused
    have mem := (h.proofs entry.1 proof).mp hp
    obtain refused|succeed|single := hs.fails tx ht
    · exact refused
    · have success := succeed _ mem
      rw [failure] at success
      cases success
    · exact absurd native (single _ (mem_contractNames.mpr ⟨entry,hm,rfl⟩)).1
  · intro refused
    obtain ⟨entry,hm,native,proof,hp,failure⟩ := nativeFailure_iff.mp refused
    have mem := (h.proofs entry.1 proof).mpr (hasProof_iff.mpr (Or.inl hp))
    exact ⟨entry,hm,native,proof,mem,failure⟩

end Failure

/-- Settlement is separated and each settlement tries all that it makes ready. -/
structure Orderly (env : Environment) (store : NodeStateStore) (carried : List BlobProofOutput) :
    Prop extends Separated env store.unsettledTransactions carried where
  registered : ∀ tx ∈ pendingTxs store.unsettledTransactions,∀ name ∈ tx.contractNames,
    store.contracts.contains name
  notHyle : ∀ tx ∈ pendingTxs store.unsettledTransactions,"hyle"∉tx.contractNames
  noNuke : ∀ tx ∈ pendingTxs store.unsettledTransactions,∀ entry ∈ tx.indexedBlobs,
    (BlobData.parse NukeTxAction entry.2.data).isNone
  payloads : ∀ tx ∈ pendingTxs store.unsettledTransactions,
    ∀ other ∈ pendingTxs store.unsettledTransactions,tx.hash≠other.hash →
      ∀ name ∈ tx.blockedContracts,name∈other.contractNames → name∈tx.contractNames

/-- The state of the node at some point of settlement, with the transactions that the blocks
say have succeeded and failed. -/
structure Tracks (env : Environment) (store : NodeStateStore) (handled : List BlobProofOutput)
    (succeeded failed : List TxHash) (current : NodeStateStore) (p : Progress) : Prop where
  contracts : current.contracts=p.contracts
  named : WellNamed p.contracts
  registered : ∀ name,store.contracts.contains name → p.contracts.contains name
  queues : ∀ name,current.unsettledTransactions.txOrder.getD name []=
    p.queue store.unsettledTransactions name
  gone : ∀ hash,p.outcome hash≠none → current.unsettledTransactions.get hash=none
  known : ∀ hash,store.unsettledTransactions.get hash=none →
    current.unsettledTransactions.get hash=none
  waiting : ∀ tx ∈ pendingTxs store.unsettledTransactions,p.outcome tx.hash=none →
    ∃ held,current.unsettledTransactions.get tx.hash=some held ∧ Holds env handled tx held
  successes : ∀ hash,hash∈succeeded ↔ p.outcome hash=some true
  failures : ∀ hash,hash∈failed ↔ p.outcome hash=some false

section Round
variable {env : Environment} {store current : NodeStateStore} {handled : List BlobProofOutput}
  {succeeded failed : List TxHash} {p : Progress} {tx held : UnsettledBlobTransaction}

/-- Each pending transaction is one of those at the start. -/
theorem Tracks.exists_of_get (ht : Tracks env store handled succeeded failed current p)
    {hash : TxHash} (h : current.unsettledTransactions.get hash=some held) :
    ∃ tx,tx∈pendingTxs store.unsettledTransactions ∧ tx.hash=hash ∧ p.outcome tx.hash=none ∧
      Holds env handled tx held := by
  cases hs : store.unsettledTransactions.get hash with
  | none =>
    rw [ht.known hash hs] at h
    cases h
  | some tx =>
    have same := store.unsettledTransactions.hash_eq hash tx hs
    subst same
    have unsettled : p.outcome tx.hash=none := by
      by_contra settled
      rw [ht.gone _ settled] at h
      cases h
    obtain ⟨other,hg,holds⟩ := ht.waiting tx (mem_pendingTxs.mpr hs) unsettled
    obtain rfl := Option.some.inj (h.symm.trans hg)
    exact ⟨tx,mem_pendingTxs.mpr hs,rfl,unsettled,holds⟩

theorem Tracks.isNextToSettle_iff (ht : Tracks env store handled succeeded failed current p)
    (hg : current.unsettledTransactions.get tx.hash=some held) (hh : Holds env handled tx held) :
    current.unsettledTransactions.isNextToSettle tx.hash=true ↔
      p.Next store.unsettledTransactions tx := by
  have heads : ∀ name,current.unsettledTransactions.getNextUnsettledTx name=
      (p.queue store.unsettledTransactions name).head? := by
    intro name
    unfold getNextUnsettledTx
    rw [ht.queues]
  rw [NodeState.isNextToSettle_iff hg]
  unfold Progress.Next
  rw [← hh.contractNames]
  simp only [heads,openBlobs,UnsettledBlobTransaction.contractNames,
    UnsettledBlobTransaction.indexedBlobs,blobValues,List.mem_map,forall_exists_index,and_imp,
    forall_apply_eq_imp_iff₂,List.map_map]
  simp

/-- Settlement of the blobs finds the verdict of the proofs so far. -/
theorem settlement_iff (hs : Orderly env store handled)
    (hf : OneOutput env store.unsettledTransactions handled)
    (hm : tx∈pendingTxs store.unsettledTransactions) (hh : Holds env handled tx held)
    {contracts : Contracts} {verdict : Except Unit ContractChanges} :
    (∃ result,(settlement env contracts held).2=some result ∧
      result.map SettlementResult.contractChanges=verdict) ↔
    Verdict env handled contracts tx verdict := by
  unfold settlement Verdict
  rw [hh.nativeFailure hs.toSeparated hm]
  cases NodeState.nativeFailure tx with
  | true =>
    constructor
    · intro h
      obtain ⟨result,eq,rfl⟩ := h
      obtain rfl := Option.some.inj eq
      rfl
    · rintro rfl
      exact ⟨_,rfl,rfl⟩
  | false =>
    have held_iff : ∀ entry ∈ held.blobs.toList,∀ proof,
        proof∈entry.2.possibleProofs ↔ HasProof env handled tx entry.1 proof := by
      intro entry he proof
      have found := Std.ExtTreeMap.mem_toList_iff_getElem?_eq_some.mp he
      rw [← hh.proofs]
      constructor
      · exact fun hp => ⟨entry.2,found,hp⟩
      · intro hp
        obtain ⟨metadata,hb,hp⟩ := hp
        obtain rfl := Option.some.inj (found.symm.trans hb)
        exact hp
    have other : ∀ entry ∈ held.blobs.toList,entry.2.blob.contractName≠"hyle" := by
      intro entry he eq
      apply hs.notHyle tx hm
      rw [← hh.contractNames,mem_contractNames]
      exact ⟨_,List.mem_map_of_mem he,eq⟩
    have functional := hf.functional hm
    simp only [Bool.false_eq_true,if_false]
    rw [← hh.indexedBlobs]
    constructor
    · intro h
      obtain ⟨result,eq,rfl⟩ := h
      exact decides_of_settleBlobsRecursively (fun e he p => (held_iff e he p).mp) other
        (Prod.ext rfl eq)
    · intro h
      exact settleBlobsRecursively_of_decides held_iff other functional h []

/-- What the node makes of the transaction is the verdict of its proofs so far. -/
theorem Tracks.verdict_iff (hs : Orderly env store handled)
    (hf : OneOutput env store.unsettledTransactions handled)
    (ht : Tracks env store handled succeeded failed current p)
    (hm : tx∈pendingTxs store.unsettledTransactions)
    (hg : current.unsettledTransactions.get tx.hash=some held) (hh : Holds env handled tx held)
    {verdict : Except Unit ContractChanges} :
    (∃ result,(tryToSettleBlobTx env current tx.hash held).2=.ok result ∧
      result.map SettlementResult.contractChanges=verdict) ↔
    Verdict env handled p.contracts tx verdict ∧
      (verdict=.error () ∨ p.Next store.unsettledTransactions tx) := by
  have registered : (held.blobValues.all fun metadata =>
      current.contracts.contains metadata.blob.contractName)=true := by
    rw [List.all_eq_true]
    intro metadata hb
    rw [ht.contracts]
    apply ht.registered
    apply hs.registered tx hm
    rw [← hh.contractNames,mem_contractNames]
    obtain ⟨entry,he,rfl⟩ := List.mem_map.mp hb
    exact ⟨_,List.mem_map_of_mem he,rfl⟩
  rw [← settlement_iff hs hf hm hh,← ht.contracts,← ht.isNextToSettle_iff hg hh]
  unfold tryToSettleBlobTx
  rw [if_neg (not_not.mpr registered)]
  cases hv : settlement env current.contracts held with
  | mk events found =>
    match found with
    | none => simp
    | some (.error ()) =>
      constructor
      · intro h
        obtain ⟨result,eq,rfl⟩ := h
        obtain rfl := Except.ok.inj eq
        exact ⟨⟨_,rfl,rfl⟩,Or.inl rfl⟩
      · intro h
        obtain ⟨⟨result,eq,rfl⟩,_⟩ := h
        obtain rfl := Option.some.inj eq
        exact ⟨_,rfl,rfl⟩
    | some (.ok found) =>
      dsimp only
      constructor
      · intro h
        obtain ⟨result,eq,rfl⟩ := h
        split_ifs at eq with next
        obtain rfl := Except.ok.inj eq
        exact ⟨⟨_,rfl,rfl⟩,Or.inr next⟩
      · intro h
        obtain ⟨⟨result,eq,rfl⟩,turn⟩ := h
        obtain rfl := Option.some.inj eq
        have next := turn.resolve_left (by simp [Except.map])
        rw [if_pos next]
        exact ⟨_,rfl,rfl⟩

theorem get_remove {pending rest : OrderedTxMap} {hash other : TxHash}
    (hr : pending.remove hash=some (held,rest)) :
    rest.get other=if other=hash then none else pending.get other := by
  unfold OrderedTxMap.get
  rw [(remove_eq_some hr).2,Std.ExtTreeMap.getElem?_erase]
  by_cases same : other=hash
  · subst same
    simp
  · have apart : compare hash other≠.eq := fun h => same (Std.LawfulEqOrd.eq_of_compare h).symm
    rw [if_neg apart,if_neg same]

/-- The queues after a removal: who leaves was only in those of the contracts it blocks. -/
theorem queue_remove {pending rest : OrderedTxMap} {hash : TxHash}
    (hr : pending.remove hash=some (held,rest)) (name : ContractName) :
    rest.txOrder.getD name []=(pending.txOrder.getD name []).filter fun h => h≠hash := by
  rw [txOrder_remove hr name]
  split_ifs with blocked
  · rfl
  · rw [eq_comm,List.filter_eq_self]
    intro other ho
    obtain ⟨found,hf,hb⟩ := pending.queued name other ho
    simp only [ne_eq,decide_eq_true_eq]
    rintro rfl
    obtain rfl := Option.some.inj (hf.symm.trans (remove_eq_some hr).1)
    exact blocked hb

/-- The state of the node follows a settlement. -/
theorem Tracks.after (hs : Separated env store.unsettledTransactions handled)
    (ht : Tracks env store handled succeeded failed current p)
    {verdict : Except Unit ContractChanges}
    (h : Settles env store.unsettledTransactions handled p tx verdict) {rest : OrderedTxMap}
    (hr : current.unsettledTransactions.remove tx.hash=some (held,rest)) {next : NodeStateStore}
    (hc : next.contracts=(p.after tx verdict).contracts)
    (hp : next.unsettledTransactions=rest) {succeeded' failed' : List TxHash}
    (hsucc : succeeded'=if verdict.isOk then succeeded++[tx.hash] else succeeded)
    (hfail : failed'=if verdict.isOk then failed else failed++[tx.hash]) :
    Tracks env store handled succeeded' failed' next (p.after tx verdict) where
  contracts := hc
  named := wellNamed_after hs h
  registered := by
    intro name hn
    have before := ht.registered name hn
    rw [Std.ExtTreeMap.contains_eq_isSome_getElem?] at before ⊢
    rw [getElem?_contracts_after hs h]
    cases verdict with
    | error e => exact before
    | ok changes =>
      dsimp only
      cases hd : changes[name]? with
      | none => exact before
      | some data => exact ((h.touches hs).2 name data hd).2
  queues := by
    intro name
    rw [hp,queue_remove hr,ht.queues,Progress.queue_after]
  gone := by
    intro hash settled
    rw [hp,get_remove hr]
    split_ifs with same
    · rfl
    · rw [Progress.outcome_after_of_ne same] at settled
      exact ht.gone hash settled
  known := by
    intro hash unknown
    rw [hp,get_remove hr,ht.known hash unknown]
    split_ifs <;> rfl
  waiting := by
    intro other ho unsettled
    have apart : other.hash≠tx.hash := by
      intro same
      rw [same,Progress.outcome_after_self] at unsettled
      cases unsettled
    rw [Progress.outcome_after_of_ne apart] at unsettled
    rw [hp,get_remove hr,if_neg apart]
    exact ht.waiting other ho unsettled
  successes := by
    intro hash
    have new : hash∈succeeded' ↔ hash∈succeeded ∨ hash=tx.hash ∧ verdict.isOk=true := by
      rw [hsucc]
      split_ifs with ok <;> simp [ok]
    rw [new,ht.successes]
    by_cases same : hash=tx.hash
    · subst same
      simp [Progress.outcome_after_self,h.waiting]
    · simp [Progress.outcome_after_of_ne same,same]
  failures := by
    intro hash
    have new : hash∈failed' ↔ hash∈failed ∨ hash=tx.hash ∧ verdict.isOk=false := by
      rw [hfail]
      split_ifs with ok <;> simp [ok]
    rw [new,ht.failures]
    by_cases same : hash=tx.hash
    · subst same
      simp [Progress.outcome_after_self,h.waiting]
    · simp [Progress.outcome_after_of_ne same,same]

end Round

section Settled
variable {bth : TxHash} {tx : UnsettledBlobTransaction} {work : Work}

theorem txsToNuke_eq_empty
    (h : ∀ metadata ∈ tx.blobValues,(BlobData.parse NukeTxAction metadata.blob.data).isNone) :
    txsToNuke tx=∅ := by
  unfold txsToNuke
  generalize tx.blobValues=blobs at h
  induction blobs with
  | nil => rfl
  | cons metadata blobs ih =>
    have none := Option.isNone_iff_eq_none.mp (h metadata List.mem_cons_self)
    rw [List.foldl_cons,none]
    exact ih fun m hm => h m (List.mem_cons_of_mem _ hm)

theorem forceOutputs_of_empty (h : txsToNuke tx=∅) : forceOutputs bth tx work=(work,∅) := by
  have none : nukeUpdates work.store (txsToNuke tx)=[] := by
    rw [h]
    simp [nukeUpdates]
  unfold forceOutputs
  rw [none]
  rfl

theorem onSettledBlobTx_of_empty {result : SettlementResult} (h : txsToNuke tx=∅) :
    onSettledBlobTx bth tx work (.ok result)=
      (succeed bth (settleContracts bth tx result work),nextTxs work.pending tx ∪ ∅) := by
  unfold onSettledBlobTx
  simp only [forceOutputs_of_empty h]

/-- Without deletions, all transactions in the queues stay. -/
theorem pending_settleContracts {result : SettlementResult}
    (h : ∀ change ∈ result.contractChanges.toList,change.2.1.isSome) :
    (settleContracts bth tx result work).pending=work.pending := by
  refine List.foldlRecOn (motive := fun next : Work => next.pending=work.pending) _ _ rfl ?_
  intro next hs change hm
  obtain ⟨contractName,contract,fields,sideEffects⟩ := change
  cases contract with
  | some contract => exact hs
  | none =>
    have some := h _ hm
    cases some

end Settled

section Wake
variable {env : Environment} {store : NodeStateStore} {handled : List BlobProofOutput}
  {p : Progress} {tx other : UnsettledBlobTransaction}
  {verdict verdict' : Except Unit ContractChanges}

theorem mem_blockedContracts_of_mem_queue {start : OrderedTxMap} {name : ContractName}
    (ho : other∈pendingTxs start) (hq : other.hash∈p.queue start name) :
    name∈other.blockedContracts := by
  obtain ⟨found,hf,hb⟩ := start.queued name other.hash (List.mem_filter.mp hq).1
  have same := mem_pendingTxs.mp ho
  obtain rfl := Option.some.inj (same.symm.trans hf)
  exact hb

/-- Whoever comes first in a queue of a settled transaction is roused. -/
theorem roused_of_head (hs : Orderly env store handled)
    (h : Settles env store.unsettledTransactions handled p tx verdict)
    (ho : other∈pendingTxs store.unsettledTransactions) {name : ContractName}
    (hn : name∈tx.contractNames)
    (head : ((p.after tx verdict).queue store.unsettledTransactions name).head?=some other.hash) :
    Roused env store.unsettledTransactions handled (p.after tx verdict) other := by
  have queued : other.hash∈(p.after tx verdict).queue store.unsettledTransactions name :=
    List.mem_of_head? head
  have apart : other.hash≠tx.hash := by
    rw [Progress.queue_after] at queued
    simpa using (List.mem_filter.mp queued).2
  have blocked := mem_blockedContracts_of_mem_queue ho queued
  have shared : name∈other.contractNames :=
    hs.payloads other ho tx (mem_pendingTxs.mpr h.pending) apart name blocked hn
  refine Or.inr ⟨name,shared,head,tx,h.pending,?_,hn⟩
  simp [Progress.outcome_after_self]

/-- What a settlement makes ready was so before, or comes first in one of its queues. -/
theorem Settles.before (hs : Orderly env store handled)
    (h : Settles env store.unsettledTransactions handled p tx verdict)
    (ho : Settles env store.unsettledTransactions handled (p.after tx verdict) other verdict')
    (behind : ∀ name ∈ tx.contractNames,
      ((p.after tx verdict).queue store.unsettledTransactions name).head?≠some other.hash) :
    Settles env store.unsettledTransactions handled p other verdict' := by
  have apart : other.hash≠tx.hash := by
    intro same
    have waiting := ho.waiting
    rw [same,Progress.outcome_after_self] at waiting
    cases waiting
  have pending := mem_pendingTxs.mpr h.pending
  have pending' := mem_pendingTxs.mpr ho.pending
  have heads : ∀ name ∈ other.contractNames,
      ((p.after tx verdict).queue store.unsettledTransactions name).head?=some other.hash →
      (p.queue store.unsettledTransactions name).head?=some other.hash := by
    intro name hn head
    have unblocked : name∉tx.blockedContracts := fun blocked =>
      behind name (hs.payloads tx pending other pending' apart.symm name blocked hn) head
    have absent : tx.hash∉p.queue store.unsettledTransactions name := fun queued =>
      unblocked (mem_blockedContracts_of_mem_queue pending queued)
    rw [Progress.queue_after,List.filter_eq_self.mpr] at head
    · exact head
    · intro hash hq
      simp only [ne_eq,decide_eq_true_eq]
      rintro rfl
      exact absent hq
  have next : (p.after tx verdict).Next store.unsettledTransactions other →
      p.Next store.unsettledTransactions other :=
    fun next name hn => heads name hn (next name hn)
  refine ⟨h.named,ho.pending,?_,?_,?_,ho.inTurn.imp id next⟩
  · rw [← Progress.outcome_after_of_ne apart]
    exact ho.waiting
  · obtain ⟨first,proven⟩|⟨name,hn,head,gone,found,settled,shared⟩ := ho.roused
    · exact Or.inl ⟨next first,proven⟩
    · refine Or.inr ⟨name,hn,heads name hn head,gone,found,?_,shared⟩
      by_cases same : gone.hash=tx.hash
      · have eq : gone=tx := by
          rw [same,h.pending] at found
          exact (Option.some.inj found).symm
        subst eq
        exact absurd head (behind name shared)
      · rwa [Progress.outcome_after_of_ne same] at settled
  · have decided := ho.decided
    unfold Verdict at decided ⊢
    cases hn : nativeFailure other with
    | true =>
      rw [hn,if_pos rfl] at decided
      exact decided
    | false =>
      rw [hn,if_neg (by decide)] at decided
      have first := ho.next hs.toSeparated hn
      have same : ∀ name,name∈reads env handled other →
          p.contracts[name]?=(p.after tx verdict).contracts[name]? := by
        intro name hm
        rw [getElem?_contracts_after hs.toSeparated h name]
        cases verdict with
        | error e => rfl
        | ok changes =>
          dsimp only
          cases hd : changes[name]? with
          | none => rfl
          | some data =>
            have written := ((h.touches hs.toSeparated).2 name data hd).1
            obtain ⟨shared,own,others⟩ :=
              hs.conflicts tx pending other pending' apart.symm name written (Or.inr hm)
            exact absurd (first shared others) (behind shared own)
      apply decided.frame
      · intro entry he
        exact same _ (List.mem_append_left _ (mem_contractNames.mpr ⟨entry,he,rfl⟩))
      · intro index proof hp read hr
        exact same _ (mem_reads_of_stateRead hp hr)

end Wake

section Rounds
variable {env : Environment} {store : NodeStateStore} {handled : List BlobProofOutput}
  {succeeded failed : List TxHash} {work : Work} {toTry : TxHashSet} {p : Progress}

/-- Between two rounds of settlement: those to try have been roused, and whoever may settle is
among them. -/
structure Current (env : Environment) (store : NodeStateStore) (handled : List BlobProofOutput)
    (succeeded failed : List TxHash) (work : Work) (toTry : TxHashSet) (p : Progress) :
    Prop where
  tracks : Tracks env store handled (succeeded++work.block.successfulTxs)
    (failed++work.block.failedTxs) work.store p
  roused : ∀ tx ∈ pendingTxs store.unsettledTransactions,p.outcome tx.hash=none → tx.hash∈toTry →
    Roused env store.unsettledTransactions handled p tx
  complete : ∀ tx verdict,Settles env store.unsettledTransactions handled p tx verdict →
    tx.hash∈toTry

theorem mem_erase {hashes : TxHashSet} {hash other : TxHash} :
    other∈hashes.erase hash ↔ other∈hashes ∧ other≠hash := by
  rw [Std.ExtTreeSet.mem_erase]
  constructor
  · intro h
    exact ⟨h.2,fun same => h.1 (same ▸ Std.ReflOrd.compare_self)⟩
  · intro h
    exact ⟨fun same => h.2 (Std.LawfulEqOrd.eq_of_compare same).symm,h.1⟩

theorem mem_nextTxs {pending : OrderedTxMap} {tx : UnsettledBlobTransaction} {hash : TxHash} :
    hash∈nextTxs pending tx ↔
      ∃ name ∈ tx.contractNames,(pending.txOrder.getD name []).head?=some hash := by
  classical
  rw [nextTxs,Std.ExtTreeSet.mem_ofList,List.contains_iff_mem,List.mem_filterMap]
  constructor
  · intro h
    obtain ⟨metadata,hm,head⟩ := h
    obtain ⟨entry,he,rfl⟩ := List.mem_map.mp hm
    exact ⟨_,mem_contractNames.mpr ⟨_,List.mem_map_of_mem he,rfl⟩,head⟩
  · intro h
    obtain ⟨name,hn,head⟩ := h
    obtain ⟨entry,he,rfl⟩ := mem_contractNames.mp hn
    obtain ⟨found,hf,rfl⟩ := List.mem_map.mp he
    exact ⟨found.2,List.mem_map_of_mem hf,head⟩

theorem settleTx_of_ok {bth : TxHash} {held : UnsettledBlobTransaction} {rest : OrderedTxMap}
    {result : Except Unit SettlementResult} (hr : work.pending.remove bth=some (held,rest))
    (ht : (tryToSettleBlobTx env work.store bth held).2=.ok result) :
    (settleTx env bth work).2≠none := by
  simp [settleTx,hr,ht]

/-- What the node does with a settled transaction that neither deletes nor nukes. -/
theorem onSettledBlobTx_eq (hs : Orderly env store handled)
    (ht : Tracks env store handled succeeded failed work.store p)
    {tx held : UnsettledBlobTransaction} (rest : OrderedTxMap)
    {result : Except Unit SettlementResult} (hh : Holds env handled tx held)
    (h : Settles env store.unsettledTransactions handled p tx
      (result.map SettlementResult.contractChanges)) :
    let settled := onSettledBlobTx tx.hash held (settling env tx.hash work held rest) result
    settled.1.store.contracts=
        (p.after tx (result.map SettlementResult.contractChanges)).contracts ∧
      settled.1.store.unsettledTransactions=rest ∧
      settled.1.block.successfulTxs=
        (if result.isOk then work.block.successfulTxs++[tx.hash] else work.block.successfulTxs) ∧
      settled.1.block.failedTxs=
        (if result.isOk then work.block.failedTxs else work.block.failedTxs++[tx.hash]) ∧
      ∀ hash,hash∈settled.2 ↔ hash∈nextTxs rest held := by
  cases result with
  | error e => exact ⟨ht.contracts,rfl,rfl,rfl,fun _ => Iff.rfl⟩
  | ok result =>
    have nukes : txsToNuke held=∅ := by
      apply txsToNuke_eq_empty
      intro metadata hm
      obtain ⟨entry,he,rfl⟩ := List.mem_map.mp hm
      apply hs.noNuke tx (mem_pendingTxs.mpr h.pending) (entry.1,entry.2.blob)
      rw [← hh.indexedBlobs]
      exact List.mem_map_of_mem he
    have kept : ∀ change ∈ result.contractChanges.toList,change.2.1.isSome := by
      intro change hm
      have listed := Std.ExtTreeMap.mem_toList_iff_getElem?_eq_some.mp hm
      exact ((h.touches hs.toSeparated).2 _ _ listed).2
    generalize hw : settling env tx.hash work held rest=before
    have left : before.pending=rest := by
      rw [← hw]
      rfl
    have stored : before.store.contracts=p.contracts := by
      rw [← hw]
      exact ht.contracts
    have block : outcomes before.block=outcomes work.block := by
      rw [← hw]
      rfl
    have lists : outcomes (settleContracts tx.hash held result before).block=outcomes work.block :=
      (outcomes_settleContracts result before).trans block
    have pending : (settleContracts tx.hash held result before).pending=rest :=
      (pending_settleContracts kept).trans left
    intro settled
    have same : settled=(succeed tx.hash (settleContracts tx.hash held result before),
        nextTxs before.pending held ∪ ∅) := onSettledBlobTx_of_empty nukes
    rw [same]
    refine ⟨?_,pending,?_,congrArg Outcomes.failed lists,?_⟩
    · refine (contracts_settleContracts result).trans ?_
      rw [stored]
      rfl
    · exact congrArg (fun outcomes : Outcomes => outcomes.successful++[tx.hash]) lists
    · intro hash
      rw [Std.ExtTreeSet.mem_union_iff,left]
      simp

/-- A round in vain: the transaction could not be settled. -/
theorem Current.vain (hs : Orderly env store handled)
    (hf : OneOutput env store.unsettledTransactions handled)
    (h : Current env store handled succeeded failed work toTry p) {bth : TxHash}
    (hn : (settleTx env bth work).2=none) :
    Current env store handled succeeded failed (settleTx env bth work).1 (toTry.erase bth) p := by
  obtain ⟨block,noted,eq⟩|⟨tx,rest,result,_,_,eq⟩ := settleTx_outcome env bth work
  · have same : outcomes block=outcomes work.block := outcomes_noted noted
    have successful : block.successfulTxs=work.block.successfulTxs :=
      congrArg Outcomes.successful same
    have failures : block.failedTxs=work.block.failedTxs := congrArg Outcomes.failed same
    refine ⟨?_,?_,?_⟩
    · rw [eq]
      show Tracks env store handled (succeeded++block.successfulTxs) (failed++block.failedTxs)
        work.store p
      rw [successful,failures]
      exact h.tracks
    · intro tx ht waiting hm
      exact h.roused tx ht waiting (mem_erase.mp hm).1
    · intro tx verdict settles
      refine mem_erase.mpr ⟨h.complete tx verdict settles,?_⟩
      rintro rfl
      have ht := mem_pendingTxs.mpr settles.pending
      obtain ⟨held,hg,hh⟩ := h.tracks.waiting tx ht settles.waiting
      obtain ⟨rest,hr⟩ := exists_remove hg
      obtain ⟨result,ok,_⟩ := (h.tracks.verdict_iff hs hf ht hg hh).mpr
        ⟨settles.decided,settles.inTurn⟩
      exact settleTx_of_ok hr ok hn
  · rw [eq] at hn
    cases hn

/-- A round that settles is a step of settlement, and all that it makes ready is tried next. -/
theorem Current.settled (hs : Orderly env store handled)
    (hf : OneOutput env store.unsettledTransactions handled)
    (h : Current env store handled succeeded failed work toTry p) {bth : TxHash}
    {next : TxHashSet} (hb : bth∈toTry) (hn : (settleTx env bth work).2=some next) :
    ∃ q,Commuting.Act (SettleStep env store.unsettledTransactions handled) p q ∧
      Current env store handled succeeded failed (settleTx env bth work).1
        (toTry.erase bth ∪ next) q := by
  obtain ⟨block,_,eq⟩|⟨held,rest,result,hr,ok,eq⟩ := settleTx_outcome env bth work
  · rw [eq] at hn
    cases hn
  · obtain ⟨tx,ht,rfl,waiting,hh⟩ := h.tracks.exists_of_get (remove_eq_some hr).1
    have hg : work.store.unsettledTransactions.get tx.hash=some held := (remove_eq_some hr).1
    obtain ⟨decided,turn⟩ := (h.tracks.verdict_iff hs hf ht hg hh).mp ⟨result,ok,rfl⟩
    have settles : Settles env store.unsettledTransactions handled p tx
        (result.map SettlementResult.contractChanges) :=
      ⟨h.tracks.named,mem_pendingTxs.mp ht,waiting,h.roused tx ht waiting hb,decided,turn⟩
    obtain ⟨contracts,pending,successes,failures,tried⟩ :=
      onSettledBlobTx_eq hs h.tracks rest hh settles
    have mem : ∀ hash,hash∈toTry.erase tx.hash ∪ next ↔
        hash∈toTry ∧ hash≠tx.hash ∨ ∃ name ∈ tx.contractNames,
          ((p.after tx (result.map SettlementResult.contractChanges)).queue
            store.unsettledTransactions name).head?=some hash := by
      intro hash
      rw [eq] at hn
      obtain rfl := Option.some.inj hn
      rw [Std.ExtTreeSet.mem_union_iff,mem_erase,tried,mem_nextTxs,hh.contractNames]
      simp only [queue_remove hr,Progress.queue_after]
      rw [show work.pending.txOrder=work.store.unsettledTransactions.txOrder from rfl]
      simp only [h.tracks.queues]
    refine ⟨_,⟨tx,_,settles,rfl⟩,?_,?_,?_⟩
    · rw [eq]
      have ok_iff : (result.map SettlementResult.contractChanges).isOk=result.isOk := by
        cases result <;> rfl
      apply h.tracks.after hs.toSeparated settles hr contracts pending
      · rw [successes,ok_iff]
        split_ifs
        · exact (List.append_assoc _ _ _).symm
        · rfl
      · rw [failures,ok_iff]
        split_ifs
        · rfl
        · exact (List.append_assoc _ _ _).symm
    · intro other ho unsettled hm
      obtain ⟨old,apart⟩|⟨name,hname,head⟩ := (mem other.hash).mp hm
      · rw [Progress.outcome_after_of_ne apart] at unsettled
        exact (h.roused other ho unsettled old).after apart
      · exact roused_of_head hs settles ho hname head
    · intro other verdict later
      rw [mem]
      by_cases behind : ∀ name ∈ tx.contractNames,
          ((p.after tx (result.map SettlementResult.contractChanges)).queue
            store.unsettledTransactions name).head?≠some other.hash
      · have before := settles.before hs later behind
        refine Or.inl ⟨h.complete other verdict before,?_⟩
        intro same
        have waiting := later.waiting
        rw [same,Progress.outcome_after_self] at waiting
        cases waiting
      · push Not at behind
        exact Or.inr behind

end Rounds

end TruthSeeker.NodeState
