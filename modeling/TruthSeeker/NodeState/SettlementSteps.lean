import TruthSeeker.Framework.Transitions
import TruthSeeker.NodeState.Verdicts

namespace TruthSeeker

def OnchainEffect.registers : OnchainEffect → Bool
  | .registerContract _ => true
  | .deleteContract _ => false

/-- The contracts of the unsettled blobs. -/
def UnsettledBlobTransaction.contractNames (self : UnsettledBlobTransaction) :
    List ContractName :=
  self.indexedBlobs.map fun entry => entry.2.contractName

namespace NodeState

section Proofs
variable (env : Environment) (carried : List BlobProofOutput) (tx : UnsettledBlobTransaction)

/-- Whether the proof is added to the transaction if it arrives while the transaction waits. -/
def accepts (entry : BlobProofOutput) : Bool :=
  entry.blobTxHash=tx.hash && (verifyHyleOutput env tx entry.hyleOutput).isOk

/-- The proofs that the blobs hold, and those that will be added. -/
def allProofs : List (BlobIndex × ProgramId × HyleOutput) :=
  (tx.blobs.toList.flatMap fun entry =>
      entry.2.possibleProofs.map fun proof => (entry.1,proof))++
    (carried.filter (accepts env tx)).map fun entry =>
      (entry.hyleOutput.index,entry.programId,entry.hyleOutput)

def HasProof : Proofs := fun index proof => (index,proof)∈allProofs env carried tx

/-- The contracts that a settlement of the transaction may change. -/
def writes : List ContractName :=
  tx.contractNames++(allProofs env carried tx).flatMap fun entry =>
    entry.2.2.onchainEffects.map effectName

/-- The contracts that a settlement of the transaction looks at. -/
def reads : List ContractName :=
  tx.contractNames++(allProofs env carried tx).flatMap fun entry =>
    entry.2.2.stateReads.map Prod.fst

variable {env carried tx}

theorem hasProof_iff {index : BlobIndex} {proof : ProgramId × HyleOutput} :
    HasProof env carried tx index proof ↔ tx.HoldsProof index proof ∨
      ∃ entry ∈ carried,accepts env tx entry=true ∧
        (entry.hyleOutput.index,entry.programId,entry.hyleOutput)=(index,proof) := by
  simp only [HasProof,allProofs,List.mem_append,List.mem_flatMap,List.mem_map,List.mem_filter,
    and_assoc]
  apply or_congr_left
  constructor
  · intro h
    obtain ⟨entry,hm,found,hp,same⟩ := h
    obtain ⟨rfl,rfl⟩ := Prod.mk.inj same
    exact ⟨entry.2,Std.ExtTreeMap.mem_toList_iff_getElem?_eq_some.mp hm,hp⟩
  · intro h
    obtain ⟨metadata,hm,hp⟩ := h
    exact ⟨(index,metadata),Std.ExtTreeMap.mem_toList_iff_getElem?_eq_some.mpr hm,proof,hp,rfl⟩

theorem hasProof_mono {more : List BlobProofOutput} (h : ∀ entry ∈ carried,entry∈more)
    {index : BlobIndex} {proof : ProgramId × HyleOutput}
    (hp : HasProof env carried tx index proof) : HasProof env more tx index proof := by
  rw [hasProof_iff] at hp ⊢
  obtain held|⟨entry,hm,rest⟩ := hp
  · exact Or.inl held
  · exact Or.inr ⟨entry,h entry hm,rest⟩

theorem mem_writes_of_effect {index : BlobIndex} {proof : ProgramId × HyleOutput}
    (hp : HasProof env carried tx index proof) {effect : OnchainEffect}
    (he : effect∈proof.2.onchainEffects) : effectName effect∈writes env carried tx := by
  apply List.mem_append_right
  exact List.mem_flatMap.mpr ⟨_,hp,List.mem_map_of_mem he⟩

theorem mem_reads_of_stateRead {index : BlobIndex} {proof : ProgramId × HyleOutput}
    (hp : HasProof env carried tx index proof) {read : ContractName × StateCommitment}
    (hr : read∈proof.2.stateReads) : read.1∈reads env carried tx := by
  apply List.mem_append_right
  exact List.mem_flatMap.mpr ⟨_,hp,List.mem_map_of_mem hr⟩

end Proofs

/-- The pending transactions in the order of their hashes. -/
def pendingTxs (pending : OrderedTxMap) : List UnsettledBlobTransaction :=
  pending.map.toList.map Prod.snd

theorem mem_pendingTxs {pending : OrderedTxMap} {tx : UnsettledBlobTransaction} :
    tx∈pendingTxs pending ↔ pending.get tx.hash=some tx := by
  unfold pendingTxs OrderedTxMap.get
  constructor
  · intro h
    obtain ⟨entry,hm,rfl⟩ := List.mem_map.mp h
    have found := Std.ExtTreeMap.mem_toList_iff_getElem?_eq_some.mp hm
    rwa [pending.hash_eq entry.1 entry.2 found]
  · intro h
    exact List.mem_map.mpr ⟨(tx.hash,tx),Std.ExtTreeMap.mem_toList_iff_getElem?_eq_some.mpr h,rfl⟩

/-- How far settlement has come: the contracts, and whether each settled transaction has
succeeded. -/
structure Progress where
  contracts : Contracts
  outcome : TxHash → Option Bool

namespace Progress

variable (start : OrderedTxMap) (self : Progress)

/-- The queue of a contract without the settled transactions. -/
def queue (name : ContractName) : List TxHash :=
  (start.txOrder.getD name []).filter fun hash => self.outcome hash=none

/-- The transaction is first in the queues of all its contracts. -/
def Next (tx : UnsettledBlobTransaction) : Prop :=
  ∀ name ∈ tx.contractNames,(self.queue start name).head?=some tx.hash

def after (tx : UnsettledBlobTransaction) (verdict : Except Unit ContractChanges) : Progress where
  contracts := match verdict with
    | .ok changes => changes.toList.foldl changeContract self.contracts
    | .error () => self.contracts
  outcome := Function.update self.outcome tx.hash (some verdict.isOk)

end Progress

section Machine
variable (env : Environment) (start : OrderedTxMap) (carried : List BlobProofOutput)

/-- What makes the node try a transaction: a proof for it when it is next, or that it is first in
a queue that a settled transaction was in. -/
def Roused (p : Progress) (tx : UnsettledBlobTransaction) : Prop :=
  (p.Next start tx ∧ ∃ entry ∈ carried,accepts env tx entry=true) ∨
    ∃ name ∈ tx.contractNames,(p.queue start name).head?=some tx.hash ∧
      ∃ other,start.get other.hash=some other ∧ p.outcome other.hash≠none ∧
        name∈other.contractNames

/-- What the proofs of a transaction decide. -/
def Verdict (contracts : Contracts) (tx : UnsettledBlobTransaction)
    (verdict : Except Unit ContractChanges) : Prop :=
  if nativeFailure tx then verdict=.error ()
  else Decides env contracts (HasProof env carried tx) ∅ tx.indexedBlobs verdict

/-- A pending transaction is settled with the verdict. Only a failed one need not be next. -/
structure Settles (p : Progress) (tx : UnsettledBlobTransaction)
    (verdict : Except Unit ContractChanges) : Prop where
  named : WellNamed p.contracts
  pending : start.get tx.hash=some tx
  waiting : p.outcome tx.hash=none
  roused : Roused env start carried p tx
  decided : Verdict env carried p.contracts tx verdict
  inTurn : verdict=.error () ∨ p.Next start tx

/-- Settlement when all proofs are there from the start. -/
def SettleStep (p : Progress) (tx : UnsettledBlobTransaction) (q : Progress) : Prop :=
  ∃ verdict,Settles env start carried p tx verdict ∧ q=p.after tx verdict

/-- No settlement depends on another one but through the queues. -/
structure Separated : Prop where
  noDelete : ∀ tx ∈ pendingTxs start,∀ entry ∈ allProofs env carried tx,
    ∀ effect ∈ entry.2.2.onchainEffects,effect.registers=true
  /-- A transaction that can fail is refused natively or has blobs for one contract only. -/
  fails : ∀ tx ∈ pendingTxs start,nativeFailure tx=true ∨
    (∀ entry ∈ allProofs env carried tx,entry.2.2.success=true) ∨
    ∀ name ∈ tx.contractNames,name∉NATIVE_VERIFIERS_CONTRACT_LIST ∧
      ∀ other ∈ tx.contractNames,name=other
  conflicts : ∀ tx ∈ pendingTxs start,∀ other ∈ pendingTxs start,tx.hash≠other.hash →
    ∀ name ∈ writes env carried tx,name∈writes env carried other ∨ name∈reads env carried other →
      ∃ shared ∈ tx.contractNames,shared∈other.contractNames

/-- A blob has one output at most for each initial state. -/
def OneOutput : Prop :=
  ∀ tx ∈ pendingTxs start,∀ a ∈ allProofs env carried tx,∀ b ∈ allProofs env carried tx,
    a.1=b.1 → a.2.2.initialState=b.2.2.initialState → a.2.2=b.2.2

end Machine

section Queue
variable {start : OrderedTxMap} {p : Progress} {tx other : UnsettledBlobTransaction}
  {verdict : Except Unit ContractChanges}

theorem head?_filter_and {α : Type} {list : List α} {a : α} {f g : α → Bool}
    (h : (list.filter f).head?=some a) (hg : g a=true) :
    (list.filter fun b => f b && g b).head?=some a := by
  rw [List.head?_filter] at h ⊢
  obtain ⟨fa,before,after,rfl,none⟩ := List.find?_eq_some_iff_append.mp h
  rw [List.find?_eq_some_iff_append]
  refine ⟨by simp [fa,hg],before,after,rfl,?_⟩
  intro b hb
  have refused := none b hb
  simp only [Bool.not_eq_eq_eq_not,Bool.not_true] at refused ⊢
  rw [refused,Bool.false_and]

theorem Progress.outcome_after_of_ne {hash : TxHash} (h : hash≠tx.hash) :
    (p.after tx verdict).outcome hash=p.outcome hash := Function.update_of_ne h _ _

theorem Progress.outcome_after_self : (p.after tx verdict).outcome tx.hash=some verdict.isOk :=
  Function.update_self _ _ _

theorem Progress.queue_after (name : ContractName) :
    (p.after tx verdict).queue start name=
      (p.queue start name).filter fun hash => hash≠tx.hash := by
  unfold Progress.queue
  rw [List.filter_filter]
  apply List.filter_congr
  intro hash _
  by_cases same : hash=tx.hash
  · subst same
    simp [Progress.outcome_after_self]
  · simp [Progress.outcome_after_of_ne same,same]

/-- Who is first in a queue stays first when another one is settled. -/
theorem Progress.head?_after {name : ContractName} {hash : TxHash}
    (h : (p.queue start name).head?=some hash) (hne : hash≠tx.hash) :
    ((p.after tx verdict).queue start name).head?=some hash := by
  rw [Progress.queue_after]
  have all : ((p.queue start name).filter fun _ => true).head?=some hash := by simpa using h
  have first := head?_filter_and (g := fun h => h≠tx.hash) all (by simpa using hne)
  simpa using first

theorem Progress.Next.after (h : p.Next start other) (hne : other.hash≠tx.hash) :
    (p.after tx verdict).Next start other :=
  fun name hn => Progress.head?_after (h name hn) hne

theorem Roused.after {env : Environment} {carried : List BlobProofOutput}
    (h : Roused env start carried p other) (hne : other.hash≠tx.hash) :
    Roused env start carried (p.after tx verdict) other := by
  obtain ⟨next,proven⟩|⟨name,hn,head,gone,found,settled,shared⟩ := h
  · exact Or.inl ⟨next.after hne,proven⟩
  · refine Or.inr ⟨name,hn,Progress.head?_after head hne,gone,found,?_,shared⟩
    by_cases same : gone.hash=tx.hash
    · rw [same,Progress.outcome_after_self]
      simp
    · rwa [Progress.outcome_after_of_ne same]

/-- Two transactions that are both next have no contract in common. -/
theorem Progress.Next.disjoint (h : p.Next start tx) (ho : p.Next start other)
    (hne : tx.hash≠other.hash) {name : ContractName} (hn : name∈tx.contractNames) :
    name∉other.contractNames := by
  intro shared
  have same := (h name hn).symm.trans (ho name shared)
  exact hne (Option.some.inj same)

end Queue

section Commutation
variable {env : Environment} {start : OrderedTxMap} {carried : List BlobProofOutput}
  {p : Progress} {tx other : UnsettledBlobTransaction}
  {verdict verdict' : Except Unit ContractChanges}

theorem mem_contractNames {name : ContractName} :
    name∈tx.contractNames ↔ ∃ entry ∈ tx.indexedBlobs,entry.2.contractName=name :=
  List.mem_map

theorem OneOutput.functional (h : OneOutput env start carried) (ht : tx∈pendingTxs start) :
    Functional (HasProof env carried tx) := by
  intro index a b ha hb program state
  exact Prod.ext program (h tx ht _ ha _ hb rfl state)

/-- Only a natively refused transaction is settled before it is next. -/
theorem Settles.next (hs : Separated env start carried) (h : Settles env start carried p tx verdict)
    (hn : nativeFailure tx=false) : p.Next start tx := by
  obtain rfl|next := h.inTurn
  · have decided := h.decided
    unfold Verdict at decided
    rw [hn,if_neg (by decide)] at decided
    obtain ⟨index,blob,proof,_,hp,failure⟩ := decided.exists_failed
    obtain native|succeed|single := hs.fails tx (mem_pendingTxs.mpr h.pending)
    · rw [hn] at native
      cases native
    · have success := succeed _ hp
      rw [failure] at success
      cases success
    · obtain ⟨next,_⟩|⟨name,hname,head,_⟩ := h.roused
      · exact next
      · intro other ho
        rwa [← (single name hname).2 other ho]
  · exact next

/-- What a settlement as successful changes. -/
theorem Settles.touches (hs : Separated env start carried) {changes : ContractChanges}
    (h : Settles env start carried p tx (.ok changes)) :
    WellNamedChanges changes ∧ Touches (fun name => name∈writes env carried tx) changes := by
  have decided := h.decided
  unfold Verdict at decided
  split_ifs at decided
  refine decided.touches h.named ?_ ?_ WellNamedChanges.empty Touches.empty
  · intro entry he
    exact List.mem_append_left _ (mem_contractNames.mpr ⟨entry,he,rfl⟩)
  · intro index proof hp effect he
    refine ⟨mem_writes_of_effect hp he,?_⟩
    rintro name rfl
    have registers := hs.noDelete tx (mem_pendingTxs.mpr h.pending) _ hp _ he
    cases registers

/-- The contracts after a settlement, one by one. -/
theorem getElem?_contracts_after (hs : Separated env start carried)
    (h : Settles env start carried p tx verdict) (name : ContractName) :
    (p.after tx verdict).contracts[name]?=
      match verdict with
      | .ok changes => changes[name]?.elim p.contracts[name]? Prod.fst
      | .error () => p.contracts[name]? := by
  cases verdict with
  | error e => rfl
  | ok changes => exact getElem?_foldl_toList (h.touches hs).1.changesNamed name

theorem wellNamed_after (hs : Separated env start carried)
    (h : Settles env start carried p tx verdict) : WellNamed (p.after tx verdict).contracts := by
  cases verdict with
  | error e => exact h.named
  | ok changes =>
    apply wellNamed_foldl_changeContract h.named
    intro change hm contract hc
    have listed := Std.ExtTreeMap.mem_toList_iff_getElem?_eq_some.mp hm
    obtain ⟨same,valid⟩ := (h.touches hs).1 _ _ listed contract hc
    rwa [same]

/-- A settlement leaves alone what another one looks at or changes, unless the other one is
refused natively. -/
theorem Settles.apart (hs : Separated env start carried)
    (h : Settles env start carried p tx verdict)
    (ho : Settles env start carried p other verdict') (hne : tx.hash≠other.hash)
    (hn : nativeFailure other=false) {name : ContractName}
    (hm : name∈writes env carried other ∨ name∈reads env carried other) :
    ∀ changes,verdict=.ok changes → changes[name]?=none := by
  rintro changes rfl
  by_contra found
  obtain ⟨data,hd⟩ := Option.ne_none_iff_exists'.mp found
  have written := ((h.touches hs).2 name data hd).1
  have next : p.Next start tx := h.inTurn.resolve_left (by simp)
  obtain ⟨shared,own,others⟩ := hs.conflicts tx (mem_pendingTxs.mpr h.pending) other
    (mem_pendingTxs.mpr ho.pending) hne name written hm
  exact next.disjoint (ho.next hs hn) hne own others

/-- What may settle may still settle, with the same verdict, after another settlement. -/
theorem Settles.after (hs : Separated env start carried)
    (h : Settles env start carried p tx verdict)
    (ho : Settles env start carried p other verdict') (hne : tx.hash≠other.hash) :
    Settles env start carried (p.after tx verdict) other verdict' where
  named := wellNamed_after hs h
  pending := ho.pending
  waiting := by rw [Progress.outcome_after_of_ne hne.symm,ho.waiting]
  roused := ho.roused.after hne.symm
  inTurn := ho.inTurn.imp id fun next => next.after hne.symm
  decided := by
    have decided := ho.decided
    unfold Verdict at decided ⊢
    cases hn : nativeFailure other with
    | true =>
      rw [hn,if_pos rfl] at decided
      exact decided
    | false =>
      rw [hn,if_neg (by decide)] at decided
      have same : ∀ name,name∈reads env carried other →
          (p.after tx verdict).contracts[name]?=p.contracts[name]? := by
        intro name hm
        rw [getElem?_contracts_after hs h name]
        cases verdict with
        | error e => rfl
        | ok changes =>
          have absent := h.apart hs ho hne hn (Or.inr hm) changes rfl
          simp only [absent]
          rfl
      apply decided.frame
      · intro entry he
        exact same _ (List.mem_append_left _ (mem_contractNames.mpr ⟨entry,he,rfl⟩))
      · intro index proof hp read hr
        exact same _ (mem_reads_of_stateRead hp hr)

theorem Settles.unique (hf : OneOutput env start carried)
    (h : Settles env start carried p tx verdict) (ho : Settles env start carried p tx verdict') :
    verdict=verdict' := by
  have decided := h.decided
  have decided' := ho.decided
  unfold Verdict at decided decided'
  split_ifs at decided decided' with native
  · rw [decided,decided']
  · exact decided.unique (hf.functional (mem_pendingTxs.mpr h.pending)) decided'

/-- Settlements that are possible at the same time may be done in either order. -/
theorem after_comm (hs : Separated env start carried)
    (h : Settles env start carried p tx verdict)
    (ho : Settles env start carried p other verdict') (hne : tx.hash≠other.hash) :
    (p.after tx verdict).after other verdict'=(p.after other verdict').after tx verdict := by
  have outcomes : ((p.after tx verdict).after other verdict').outcome=
      ((p.after other verdict').after tx verdict).outcome :=
    Function.update_comm hne _ _ _
  have contracts : ((p.after tx verdict).after other verdict').contracts=
      ((p.after other verdict').after tx verdict).contracts := by
    apply Std.ExtTreeMap.ext_getElem?
    intro name
    rw [getElem?_contracts_after hs (h.after hs ho hne),
      getElem?_contracts_after hs (ho.after hs h hne.symm),
      getElem?_contracts_after hs h,getElem?_contracts_after hs ho]
    cases verdict with
    | error e => cases verdict' <;> rfl
    | ok changes =>
      cases verdict' with
      | error e => rfl
      | ok changes' =>
        dsimp only
        cases hc : changes'[name]? with
        | none => rfl
        | some data =>
          have native : nativeFailure other=false := by
            by_contra refused
            have decided := ho.decided
            unfold Verdict at decided
            rw [if_pos (by simpa using refused)] at decided
            cases decided
          have written := ((ho.touches hs).2 name data hc).1
          have absent := h.apart hs ho hne native (Or.inl written) changes rfl
          rw [absent]
          rfl
  calc (p.after tx verdict).after other verdict'
      = ⟨((p.after tx verdict).after other verdict').contracts,
          ((p.after tx verdict).after other verdict').outcome⟩ := rfl
    _ = (p.after other verdict').after tx verdict := by rw [contracts,outcomes]

/-- The order of the settlements does not matter. -/
theorem commute_settleStep (hs : Separated env start carried)
    (hf : OneOutput env start carried) : Commuting.Commute (SettleStep env start carried) where
  unique := by
    intro p q r tx hq hr
    obtain ⟨verdict,h,rfl⟩ := hq
    obtain ⟨verdict',h',rfl⟩ := hr
    rw [h.unique hf h']
  swap := by
    intro p q r tx other hne hq hr
    obtain ⟨verdict,h,rfl⟩ := hq
    obtain ⟨verdict',h',rfl⟩ := hr
    have apart : tx.hash≠other.hash := by
      intro same
      have found := h.pending
      rw [same,h'.pending] at found
      exact hne (Option.some.inj found).symm
    exact ⟨_,⟨verdict',h.after hs h' apart,rfl⟩,⟨verdict,h'.after hs h apart.symm,
      after_comm hs h h' apart⟩⟩

end Commutation

end NodeState

end TruthSeeker
