import Mathlib.Data.List.Induction
import TruthSeeker.NodeState.SettlementOrder
import TruthSeeker.NodeState.TimeoutSchedule

namespace TruthSeeker.NodeState

open OrderedTxMap

section Windows
variable {store next : NodeStateStore}

/-- All contracts have the same timeout windows. -/
def SameWindows (next store : NodeStateStore) : Prop :=
  ∀ name : ContractName,(next.contracts[name]?).map Contract.timeoutWindow=
    (store.contracts[name]?).map Contract.timeoutWindow

theorem due_of_sameWindows {hash : TxHash}
    (hp : next.unsettledTransactions=store.unsettledTransactions) (hw : SameWindows next store)
    (hh : next.currentHeight=store.currentHeight) (h : Due next hash) : Due store hash := by
  have windows : ∀ blobs,getTxTimeoutWindow next blobs=getTxTimeoutWindow store blobs := by
    intro blobs
    unfold getTxTimeoutWindow
    simp only [hw _,hh]
  obtain ⟨window,tx,hg,hn,hd⟩ := h
  rw [windows] at hd
  rw [hp] at hg hn
  exact ⟨window,tx,hg,hn,hd⟩

/-- A change that updates a contract and keeps its window. -/
def KeepsWindow (store : NodeStateStore) (change : ContractName × ModifiedContractData) : Prop :=
  ∃ contract,change.2.1=some contract ∧
    (store.contracts[contract.name]?).map Contract.timeoutWindow=some contract.timeoutWindow

theorem sameWindows_changeStore {change : ContractName × ModifiedContractData}
    (hs : SameWindows next store) (hk : KeepsWindow store change) :
    SameWindows (changeStore next change) store := by
  obtain ⟨contractName,_,fields,sideEffects⟩ := change
  obtain ⟨contract,rfl,kept⟩ := hk
  intro name
  show ((next.contracts.insert contract.name contract)[name]?).map _=_
  rw [Std.ExtTreeMap.getElem?_insert]
  split_ifs with heq
  · obtain rfl := Std.LawfulEqOrd.eq_of_compare heq
    exact kept.symm
  · exact hs name

variable {env : Environment} {bth : TxHash} {tx : UnsettledBlobTransaction}
  {rest : OrderedTxMap} {tried : TxHashSet}

/-- A settlement that neither deletes nor registers a contract nor sets a window is quiet. -/
theorem changesQuiet_of_keepsWindow
    (hk : ∀ result,(tryToSettleBlobTx env store bth tx).2=.ok (.ok result) →
      ∀ change ∈ result.contractChanges.toList,KeepsWindow store change) :
    ChangesQuiet env store bth tx rest tried := by
  intro result ht hash due
  let changed := result.contractChanges.toList.foldl changeStore (withPending store rest)
  have kept : SameWindows changed store ∧ changed.unsettledTransactions=rest ∧
      changed.currentHeight=store.currentHeight := by
    refine List.foldlRecOn (motive := fun s : NodeStateStore => SameWindows s store ∧
      s.unsettledTransactions=rest ∧ s.currentHeight=store.currentHeight) _ _
        ⟨fun _ => rfl,rfl,rfl⟩ ?_
    intro s hs change hm
    have keeps := hk result ht change hm
    refine ⟨sameWindows_changeStore hs.1 keeps,?_⟩
    obtain ⟨_,_,fields,sideEffects⟩ := change
    obtain ⟨contract,rfl,_⟩ := keeps
    exact hs.2
  have before : Due (withPending store rest) hash :=
    due_of_sameWindows kept.2.1 kept.1 kept.2.2 due
  exact Or.inl before

end Windows

theorem not_due_of_empty {store : NodeStateStore} {hash : TxHash}
    (h : store.unsettledTransactions=OrderedTxMap.empty) : ¬Due store hash := by
  intro due
  obtain ⟨_,tx,ht,_⟩ := due
  rw [h] at ht
  simp [OrderedTxMap.get,OrderedTxMap.empty] at ht

/-- No call of the run and no new height makes a transaction due without a timeout. -/
structure QuietRun (env : Environment) (signedBlocks : List SignedBlock) : Prop where
  calls : ∀ moment ∈ moments env signedBlocks,moment.Quiet env
  heights : ∀ before signedBlock after,signedBlocks=before++signedBlock::after →
    let store := handleSignedBlocks env NodeStateStore.default before
    InOrder store signedBlock → HeightQuiet store signedBlock.height

/-- After each block of a quiet run, every transaction that is next to settle and has a timeout
window times out at a later height. -/
theorem noStuckTx_handleSignedBlocks (env : Environment) (signedBlocks : List SignedBlock)
    (hq : QuietRun env signedBlocks) : ∀ before after,signedBlocks=before++after →
      NoStuckTx (handleSignedBlocks env NodeStateStore.default before) := by
  intro before
  induction before using List.reverseRecOn with
  | nil =>
    intro after _ hash due
    exact absurd due (not_due_of_empty rfl)
  | append_singleton before signedBlock ih =>
    intro after eq
    have split : signedBlocks=before++signedBlock::after := by simp [eq]
    have previous := ih (signedBlock::after) split
    let state := before.foldl (blockStep env) ([],NodeStateStore.default)
    have reached : state.2=handleSignedBlocks env NodeStateStore.default before := foldl_blockStep
    have quiet : ∀ moment ∈ blockMoments env state signedBlock,moment.Quiet env := by
      intro moment hm
      refine hq.calls moment ?_
      rw [moments,split]
      exact Trace.mem_outputs_of_mem hm
    have heights := hq.heights before signedBlock after split
    rw [← reached] at heights previous
    have step := noStuckTx_handleSignedBlock heights quiet previous
    rw [reached] at step
    unfold handleSignedBlocks at step ⊢
    rw [List.foldl_append]
    exact step

section Check

def isDue (store : NodeStateStore) (hash : TxHash) : Bool :=
  match store.unsettledTransactions.get hash with
  | none => false
  | some tx =>
      store.unsettledTransactions.isNextToSettle hash &&
        match getTxTimeoutWindow store tx.openBlobs with
        | .timeout _ => true
        | .noTimeout => false

theorem isDue_iff {store : NodeStateStore} {hash : TxHash} :
    isDue store hash=true ↔ Due store hash := by
  unfold isDue Due DueWithin
  cases store.unsettledTransactions.get hash with
  | none => simp
  | some tx => cases hw : getTxTimeoutWindow store tx.openBlobs <;> simp [hw]

/-- Whether the window of the blobs, if there is one, ends later. -/
def endsLater (store : NodeStateStore) (blobs : List Blob) : Bool :=
  match getTxTimeoutWindow store blobs with
  | .timeout window => decide (store.currentHeight<store.currentHeight+window)
  | .noTimeout => false

def isPayloadsQuiet (store : NodeStateStore) (tx : UnsettledBlobTransaction)
    (rest : OrderedTxMap) : Bool :=
  tx.blockedContracts.all fun contract =>
    (tx.blobValues.any fun metadata => metadata.blob.contractName=contract) ||
      match rest.getNextUnsettledTx contract with
      | none => true
      | some hash =>
          !isDue (withPending store rest) hash || (nextTxs rest tx).contains hash

theorem payloadsQuiet_of_isPayloadsQuiet {store : NodeStateStore}
    {tx : UnsettledBlobTransaction} {rest : OrderedTxMap}
    (h : isPayloadsQuiet store tx rest=true) : PayloadsQuiet store tx rest := by
  intro contract hc own hash head due
  have checked := List.all_eq_true.mp h contract hc
  have notOwn : (tx.blobValues.any fun metadata =>
      decide (metadata.blob.contractName=contract))=false := by
    simpa using own
  rw [notOwn,head] at checked
  have isDue := isDue_iff.mpr due
  simp only [isDue,Bool.false_or,Bool.not_true] at checked
  exact Or.inr (Std.ExtTreeSet.mem_iff_contains.mpr checked)

def isChangesQuiet (env : Environment) (store : NodeStateStore) (bth : TxHash)
    (tx : UnsettledBlobTransaction) (rest : OrderedTxMap) (next : TxHashSet) : Bool :=
  match (tryToSettleBlobTx env store bth tx).2 with
  | .ok (.ok result) =>
      let changed := result.contractChanges.toList.foldl changeStore (withPending store rest)
      changed.unsettledTransactions.map.keys.all fun hash =>
        !isDue changed hash || isDue (withPending store rest) hash || next.contains hash
  | _ => true

theorem changesQuiet_of_isChangesQuiet {env : Environment} {store : NodeStateStore}
    {bth : TxHash} {tx : UnsettledBlobTransaction} {rest : OrderedTxMap} {next : TxHashSet}
    (h : isChangesQuiet env store bth tx rest next=true) :
    ChangesQuiet env store bth tx rest next := by
  intro result ht hash due
  obtain ⟨_,found,hg,_⟩ := id due
  simp only [isChangesQuiet,ht] at h
  have key : hash∈(result.contractChanges.toList.foldl changeStore
      (withPending store rest)).unsettledTransactions.map.keys := by
    rw [Std.ExtTreeMap.mem_keys,Std.ExtTreeMap.mem_iff_isSome_getElem?]
    exact Option.isSome_iff_exists.mpr ⟨found,hg⟩
  have checked := List.all_eq_true.mp h hash key
  simp only [isDue_iff.mpr due,Bool.not_true,Bool.false_or,Bool.or_eq_true] at checked
  obtain before|tried := checked
  · exact Or.inl (isDue_iff.mp before)
  · exact Or.inr (Or.inr (Std.ExtTreeSet.mem_iff_contains.mpr tried))

/-- Decides that a call is quiet, without regard to the timeouts that are set already. -/
def Moment.isQuiet (env : Environment) (moment : Moment) : Bool :=
  let work := moment.work
  match moment.call with
  | .sequence parentDpHash laneId tx =>
      match handleBlobTx env work.store parentDpHash tx (txContext laneId work.block) with
      | .ok (.ok,store) => !isDue store (tx.hashed env.sha3) || endsLater store tx.blobs
      | _ => true
  | .prove _ _ => true
  | .settle bth =>
      match work.pending.remove bth,(settleTx env bth work).2 with
      | some (tx,rest),some next =>
          isPayloadsQuiet work.store tx rest && isChangesQuiet env work.store bth tx rest next
      | _,_ => true
  | .timeOut txHash =>
      match work.pending.remove txHash with
      | some (tx,rest) => isPayloadsQuiet work.store tx rest
      | none => true
  | .reschedule unsettlableTxs =>
      unsettlableTxs.toList.all fun hash =>
        match work.pending.get hash with
        | some tx => !isDue work.store hash || endsLater work.store tx.openBlobs
        | none => true

theorem endsLater_iff {store : NodeStateStore} {blobs : List Blob} :
    endsLater store blobs=true ↔ ∃ window,getTxTimeoutWindow store blobs=.timeout window ∧
      EndsLater store.currentHeight window := by
  unfold endsLater EndsLater
  cases getTxTimeoutWindow store blobs <;> simp

theorem Moment.quiet_of_isQuiet {env : Environment} {moment : Moment}
    (h : moment.isQuiet env=true) : moment.Quiet env := by
  obtain ⟨order,work,call⟩ := moment
  cases call with
  | prove proofTxHash entry => trivial
  | sequence parentDpHash laneId tx =>
    intro store hh due
    simp only [isQuiet,hh,isDue_iff.mpr due,Bool.not_true,Bool.false_or] at h
    exact endsLater_iff.mp h
  | settle bth =>
    intro tx rest next hr hn
    rw [isQuiet] at h
    dsimp only at h
    rw [hr,hn] at h
    obtain ⟨payloads,changes⟩ := (Bool.and_eq_true _ _).mp h
    exact ⟨payloadsQuiet_of_isPayloadsQuiet payloads,changesQuiet_of_isChangesQuiet changes⟩
  | timeOut txHash =>
    intro tx rest hr
    rw [isQuiet] at h
    dsimp only at h
    rw [hr] at h
    exact payloadsQuiet_of_isPayloadsQuiet h
  | reschedule unsettlableTxs =>
    intro hash hm window due
    have checked := List.all_eq_true.mp h hash (Std.ExtTreeSet.mem_toList.mpr hm)
    obtain ⟨tx,hg,_,hw⟩ := id due
    have pending : work.pending.get hash=some tx := hg
    simp only [pending,isDue_iff.mpr ⟨window,due⟩,Bool.not_true,Bool.false_or] at checked
    obtain ⟨found,hf,later⟩ := endsLater_iff.mp checked
    obtain rfl := TimeoutWindow.timeout.inj (hw.symm.trans hf)
    exact later

theorem not_armed_of_toList {store : NodeStateStore} {hash : TxHash}
    (h : (store.timeouts.toList.all fun p => !p.2.contains hash)=true) : ¬Armed store hash := by
  intro armed
  obtain ⟨height,_,mem⟩ := armed
  rw [Std.ExtTreeMap.getD_eq_getD_getElem?] at mem
  cases hq : store.timeouts[height]? with
  | none => simp [hq] at mem
  | some hashes =>
    rw [hq] at mem
    have listed := List.all_eq_true.mp h (height,hashes)
      (Std.ExtTreeMap.mem_toList_iff_getElem?_eq_some.mpr hq)
    simp only [Bool.not_eq_true',List.contains_eq_mem,decide_eq_false_iff_not] at listed
    exact listed mem

end Check

namespace DeletedContract

/-- The first transaction is next for its contracts, the other one waits behind it. -/
def waitingBlock : SignedBlock :=
  TwoContracts.block [⟨1,.blob registerTx⟩,⟨1,.blob waiting⟩,⟨1,.blob follower⟩]

/-- The first block is quiet. In the second one the follower is next and has no timeout. -/
theorem runs_deletedContract :
    ((moments env [waitingBlock]).all (Moment.isQuiet env)=true ∧
      isDue (handleSignedBlocks env NodeStateStore.default [waitingBlock]) waitingHash=true) ∧
    isDue (handleSignedBlocks env NodeStateStore.default [deletingBlock]) followerHash=true ∧
      ((handleSignedBlocks env NodeStateStore.default
        [deletingBlock]).timeouts.toList.all fun p => !p.2.contains followerHash)=true := by
  decide +kernel

end DeletedContract

open DeletedContract in
theorem noStuckTx_waitingBlock :
    Due (handleSignedBlocks env NodeStateStore.default [waitingBlock]) waitingHash ∧
      ∀ before after,[waitingBlock]=before++after →
        NoStuckTx (handleSignedBlocks env NodeStateStore.default before) := by
  refine ⟨isDue_iff.mp runs_deletedContract.1.2,noStuckTx_handleSignedBlocks env [waitingBlock] ?_⟩
  constructor
  · intro moment hm
    exact Moment.quiet_of_isQuiet (List.all_eq_true.mp runs_deletedContract.1.1 moment hm)
  · intro before signedBlock after eq _ _ hash due
    obtain rfl : before=[] := by
      have lengths := congrArg List.length eq
      simp only [List.length_cons,List.length_nil,List.length_append] at lengths
      exact List.eq_nil_of_length_eq_zero (by omega)
    exact absurd due (not_due_of_empty rfl)

open DeletedContract in
/-- The deletion of a contract drops a transaction, and the one behind it never gets a timeout. -/
theorem not_noStuckTx : ¬∀ before after,[deletingBlock]=before++after →
    NoStuckTx (handleSignedBlocks env NodeStateStore.default before) := by
  intro h
  have due := isDue_iff.mp runs_deletedContract.2.1
  exact not_armed_of_toList runs_deletedContract.2.2 (h [deletingBlock] [] rfl followerHash due)

end TruthSeeker.NodeState
