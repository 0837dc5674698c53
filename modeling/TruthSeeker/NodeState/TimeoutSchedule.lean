import TruthSeeker.NodeState.Queues

namespace TruthSeeker

namespace UnsettledBlobTransaction

/-- The blobs that wait for settlement. -/
def openBlobs (self : UnsettledBlobTransaction) : List Blob :=
  self.blobValues.map UnsettledBlobMetadata.blob

theorem openBlobs_pushProof (self : UnsettledBlobTransaction) (index : BlobIndex)
    (proof : ProgramId × HyleOutput) : (self.pushProof index proof).openBlobs=self.openBlobs := by
  have view : ∀ m : Std.ExtTreeMap BlobIndex UnsettledBlobMetadata,
      (m.toList.map Prod.snd).map UnsettledBlobMetadata.blob=
        (m.map fun _ v => v.blob).toList.map Prod.snd := by
    intro m
    rw [Std.ExtTreeMap.toList_map,List.map_map,List.map_map]
    rfl
  unfold pushProof
  split
  · rfl
  · next metadata hm =>
    unfold openBlobs blobValues
    rw [view,view]
    congr 2
    apply Std.ExtTreeMap.ext_getElem?
    intro i
    rw [Std.ExtTreeMap.getElem?_map,Std.ExtTreeMap.getElem?_map,Std.ExtTreeMap.getElem?_insert]
    split_ifs with heq
    · obtain rfl := Std.LawfulEqOrd.eq_of_compare heq
      rw [hm]
      rfl
    · rfl

end UnsettledBlobTransaction

namespace NodeState

open OrderedTxMap

section Due
variable (store : NodeStateStore)

/-- The transaction is next to settle and has a timeout window. -/
def DueWithin (hash : TxHash) (window : BlockHeight) : Prop :=
  ∃ tx,store.unsettledTransactions.get hash=some tx ∧
    store.unsettledTransactions.isNextToSettle hash=true ∧
    getTxTimeoutWindow store tx.openBlobs=.timeout window

def Due (hash : TxHash) : Prop := ∃ window,DueWithin store hash window

/-- The transaction times out at a later height. -/
def Armed (hash : TxHash) : Prop :=
  ∃ height,store.currentHeight<height ∧ hash∈store.timeouts.getD height []

/-- No transaction can block its queues forever. -/
def NoStuckTx : Prop := ∀ hash,Due store hash → Armed store hash

/-- All transactions that are due are armed, with the given exceptions. -/
def Guarded (excused : TxHash → Prop) : Prop :=
  ∀ hash,Due store hash → Armed store hash ∨ excused hash

/-- The state with other pending transactions. -/
def withPending (pending : OrderedTxMap) : NodeStateStore :=
  { store with unsettledTransactions := pending }

end Due

section Conditions

/-- A transaction that leaves makes nothing due through a name that only its payloads have,
except for what is armed or tried next anyway. -/
def PayloadsQuiet (store : NodeStateStore) (tx : UnsettledBlobTransaction)
    (rest : OrderedTxMap) : Prop :=
  ∀ contract ∈ tx.blockedContracts,
    (∀ metadata ∈ tx.blobValues,metadata.blob.contractName≠contract) →
    ∀ hash,rest.getNextUnsettledTx contract=some hash → Due (withPending store rest) hash →
      Armed store hash ∨ hash∈nextTxs rest tx

/-- A contract of the state is registered or updated, or it is deleted with what waits for it. -/
def changeStore (store : NodeStateStore) (change : ContractName × ModifiedContractData) :
    NodeStateStore :=
  match change.2.1 with
  | some contract => { store with contracts := store.contracts.insert contract.name contract }
  | none =>
      { store with
        contracts := store.contracts.erase change.1
        unsettledTransactions := (store.unsettledTransactions.removeAll change.1).2 }

/-- The deletions, registrations and windows of a transaction that is settled as successful make
nothing more due, except for what is armed or tried next anyway. -/
def ChangesQuiet (env : Environment) (store : NodeStateStore) (bth : TxHash)
    (tx : UnsettledBlobTransaction) (rest : OrderedTxMap) (next : TxHashSet) : Prop :=
  ∀ result,(tryToSettleBlobTx env store bth tx).2=.ok (.ok result) → ∀ hash,
    Due (result.contractChanges.toList.foldl changeStore (withPending store rest)) hash →
      Due (withPending store rest) hash ∨ Armed store hash ∨ hash∈next

/-- From a height on, the window in blocks ends at a later height. -/
def EndsLater (height window : BlockHeight) : Prop := height<height+window

/-- What a call must not do for every due transaction to have a timeout. -/
def Moment.Quiet (env : Environment) (moment : Moment) : Prop :=
  let work := moment.work
  match moment.call with
  | .sequence parentDpHash laneId tx =>
      ∀ store,handleBlobTx env work.store parentDpHash tx (txContext laneId work.block)=
          .ok (.ok,store) → Due store (tx.hashed env.sha3) →
        ∃ window,getTxTimeoutWindow store tx.blobs=.timeout window ∧
          EndsLater store.currentHeight window
  | .prove _ _ => True
  | .settle bth =>
      ∀ tx rest next,work.pending.remove bth=some (tx,rest) →
        (settleTx env bth work).2=some next →
        PayloadsQuiet work.store tx rest ∧ ChangesQuiet env work.store bth tx rest next
  | .timeOut txHash =>
      ∀ tx rest,work.pending.remove txHash=some (tx,rest) → PayloadsQuiet work.store tx rest
  | .reschedule unsettlableTxs =>
      ∀ hash ∈ unsettlableTxs,∀ window,DueWithin work.store hash window →
        EndsLater work.store.currentHeight window

/-- The change of the height makes nothing due that has no timeout from there on. -/
def HeightQuiet (store : NodeStateStore) (height : BlockHeight) : Prop :=
  ∀ hash,Due { store with currentHeight := height } hash → Due store hash ∨
    ∃ later,height≤later ∧ hash∈store.timeouts.getD later []

end Conditions

section Frame
variable {store next : NodeStateStore} {hash : TxHash}

theorem due_congr (hp : next.unsettledTransactions=store.unsettledTransactions)
    (hc : next.contracts=store.contracts) (hh : next.currentHeight=store.currentHeight) :
    Due next hash ↔ Due store hash := by
  simp only [Due,DueWithin,getTxTimeoutWindow,hp,hc,hh]

/-- The next for all contracts of the blobs, by the names of the contracts. -/
theorem nextForAll_iff {pending : OrderedTxMap} {tx : UnsettledBlobTransaction} :
    pending.nextForAll tx hash=true ↔
      ∀ blob ∈ tx.openBlobs,pending.getNextUnsettledTx blob.contractName=some hash := by
  simp [nextForAll,UnsettledBlobTransaction.openBlobs]

theorem isNextToSettle_iff {pending : OrderedTxMap} {tx : UnsettledBlobTransaction}
    (h : pending.get hash=some tx) : pending.isNextToSettle hash=true ↔
      ∀ blob ∈ tx.openBlobs,pending.getNextUnsettledTx blob.contractName=some hash := by
  rw [← nextForAll_iff]
  simp [isNextToSettle,h]

/-- What is due in one state is due in another one that has the same blobs of it, in which it is
next as well, and which has the same windows. -/
theorem Due.of_next {tx : UnsettledBlobTransaction} (h : Due next hash)
    (hn : next.unsettledTransactions.get hash=some tx)
    {old : UnsettledBlobTransaction} (ho : store.unsettledTransactions.get hash=some old)
    (hb : old.openBlobs=tx.openBlobs)
    (hf : ∀ blob ∈ tx.openBlobs,
      store.unsettledTransactions.getNextUnsettledTx blob.contractName=some hash)
    (hc : next.contracts=store.contracts) (hh : next.currentHeight=store.currentHeight) :
    Due store hash := by
  obtain ⟨window,found,hg,_,hw⟩ := h
  obtain rfl := Option.some.inj (hn.symm.trans hg)
  refine ⟨window,old,ho,(isNextToSettle_iff ho).mpr (hb ▸ hf),?_⟩
  rw [hb,← hw]
  simp only [getTxTimeoutWindow,hc,hh]

theorem due_pushProof {index : BlobIndex} {proof : ProgramId × HyleOutput} {proven : TxHash}
    (h : Due (withPending store (store.unsettledTransactions.pushProof proven index proof)) hash) :
    Due store hash := by
  obtain ⟨window,tx,hg,hn,hw⟩ := id h
  have heads := (isNextToSettle_iff hg).mp hn
  have same : ∀ contract,
      (store.unsettledTransactions.pushProof proven index proof).getNextUnsettledTx contract=
        store.unsettledTransactions.getNextUnsettledTx contract := by
    intro contract
    unfold getNextUnsettledTx
    rw [txOrder_pushProof]
  obtain old|new := getElem?_pushProof hg
  · exact h.of_next hg old rfl (fun blob hb => (same _).symm.trans (heads blob hb)) rfl rfl
  · obtain ⟨_,old,ho,rfl⟩ := new
    exact h.of_next hg ho (old.openBlobs_pushProof index proof).symm
      (fun blob hb => (same _).symm.trans (heads blob hb)) rfl rfl

/-- A transaction that leaves can only make those due that come next for a contract that it
blocks. -/
theorem due_remove {bth : TxHash} {tx : UnsettledBlobTransaction} {rest : OrderedTxMap}
    (hr : store.unsettledTransactions.remove bth=some (tx,rest))
    (hq : PayloadsQuiet store tx rest) (h : Due (withPending store rest) hash) :
    Due store hash ∨ Armed store hash ∨ hash∈nextTxs rest tx := by
  obtain ⟨window,found,hg,hn,hw⟩ := id h
  have heads := (isNextToSettle_iff hg).mp hn
  have old : store.unsettledTransactions.get hash=some found := by
    have gone := hg
    simp only [withPending,OrderedTxMap.get,(remove_eq_some hr).2,Std.ExtTreeMap.getElem?_erase] at gone
    split_ifs at gone
    exact gone
  by_cases first : ∀ blob ∈ found.openBlobs,
      store.unsettledTransactions.getNextUnsettledTx blob.contractName=some hash
  · exact Or.inl (h.of_next hg old rfl first rfl rfl)
  · push Not at first
    obtain ⟨blob,hb,behind⟩ := first
    have head := heads blob hb
    have blocked : blob.contractName∈tx.blockedContracts := by
      by_contra idle
      apply behind
      have queue := txOrder_remove hr blob.contractName
      rw [if_neg idle] at queue
      rw [← head,getNextUnsettledTx,getNextUnsettledTx]
      exact congrArg List.head? queue.symm
    by_cases own : ∃ metadata ∈ tx.blobValues,metadata.blob.contractName=blob.contractName
    · obtain ⟨metadata,hm,hc⟩ := own
      refine Or.inr (Or.inr ?_)
      rw [nextTxs,Std.ExtTreeSet.mem_ofList,List.contains_iff_mem]
      exact List.mem_filterMap.mpr ⟨metadata,hm,hc ▸ head⟩
    · push Not at own
      exact Or.inr (hq blob.contractName blocked own hash head h)

end Frame

section Clock

/-- The timeouts and the height stay as they are. -/
def SameClock (next store : NodeStateStore) : Prop :=
  next.timeouts=store.timeouts ∧ next.currentHeight=store.currentHeight

theorem SameClock.armed {next store : NodeStateStore} {hash : TxHash} (h : SameClock next store) :
    Armed next hash ↔ Armed store hash := by
  simp only [Armed,h.1,h.2]

theorem sameClock_applyContractChange {bth : TxHash} {work : Work} {store : NodeStateStore}
    {change : ContractName × ModifiedContractData} (h : SameClock work.store store) :
    SameClock (applyContractChange bth work change).store store := by
  obtain ⟨contractName,contract,fields,sideEffects⟩ := change
  cases contract with
  | some contract => exact h
  | none =>
    have removed : SameClock ((work.pending.removeAll contractName).1.foldl
        (fun work tx => (work.pushEvent tx.hash .timedOut).locate tx)
        (work.setPending (work.pending.removeAll contractName).2)).store store :=
      List.foldlRecOn (motive := fun work : Work => SameClock work.store store) _ _ h
        fun _ hw _ _ => hw
    exact removed

theorem sameClock_onSettledBlobTx {bth : TxHash} {tx : UnsettledBlobTransaction} {work : Work}
    {result : Except Unit SettlementResult} :
    SameClock (onSettledBlobTx bth tx work result).1.store work.store := by
  cases result with
  | error e => exact ⟨rfl,rfl⟩
  | ok result =>
    have settled : SameClock (settleContracts bth tx result work).store work.store :=
      List.foldlRecOn (motive := fun w : Work => SameClock w.store work.store) _ _ ⟨rfl,rfl⟩
        fun _ hw _ _ => sameClock_applyContractChange hw
    refine List.foldlRecOn
      (motive := fun state : Work × TxHashSet => SameClock state.1.store work.store)
      _ _ settled ?_
    intro state hw update _
    unfold applyNuke
    dsimp only
    split <;> exact hw

/-- A round of settlement does not touch the timeouts. -/
theorem sameClock_settleTx (env : Environment) (bth : TxHash) (work : Work) :
    SameClock (settleTx env bth work).1.store work.store := by
  unfold settleTx
  split
  · exact ⟨rfl,rfl⟩
  · dsimp only
    split
    · exact ⟨rfl,rfl⟩
    · exact sameClock_onSettledBlobTx

/-- A round in vain leaves the state as it is. -/
theorem store_settleTx_of_none {env : Environment} {bth : TxHash} {work : Work}
    (h : (settleTx env bth work).2=none) : (settleTx env bth work).1.store=work.store := by
  unfold settleTx at h ⊢
  cases hr : work.pending.remove bth with
  | none => rfl
  | some removed =>
    obtain ⟨tx,rest⟩ := removed
    simp only [hr] at h ⊢
    cases he : (tryToSettleBlobTx env work.store bth tx).2 with
    | error e => rfl
    | ok result => simp [he] at h

/-- A settled transaction is no longer pending. -/
theorem get_settleTx {env : Environment} {bth : TxHash} {work : Work} {next : TxHashSet}
    (h : (settleTx env bth work).2=some next) :
    (settleTx env bth work).1.store.unsettledTransactions.get bth=none := by
  obtain ⟨none,_⟩|⟨tx,rest,result,settled,hr,rfl,eq⟩ := settleTx_cases env bth work
  · rw [none] at h
    cases h
  · have others : All (fun other => other.hash≠bth) settled.pending := by
      intro hash found hf
      rw [(settled.pending).hash_eq hash found hf]
      rintro rfl
      rw [(remove_eq_some hr).2,Std.ExtTreeMap.getElem?_erase_self] at hf
      cases hf
    have kept : All (fun other => other.hash≠bth)
        (onSettledBlobTx bth tx settled result).1.pending := by
      refine all_onSettledBlobTx ?_ others
      intro other update hne _
      rwa [UnsettledBlobTransaction.hash_pushProof]
    rw [eq]
    cases hg : (onSettledBlobTx bth tx settled result).1.store.unsettledTransactions.get bth with
    | none => rfl
    | some found =>
      have hash := (onSettledBlobTx bth tx settled result).1.pending.hash_eq bth found hg
      exact absurd hash (kept bth found hg)

end Clock

section Schedule
variable {store : NodeStateStore} {hash : TxHash} {blobs : List Blob}

theorem dueWithin_congr {next : NodeStateStore} {window : BlockHeight}
    (hp : next.unsettledTransactions=store.unsettledTransactions)
    (hc : next.contracts=store.contracts) (hh : next.currentHeight=store.currentHeight) :
    DueWithin next hash window ↔ DueWithin store hash window := by
  simp only [DueWithin,getTxTimeoutWindow,hp,hc,hh]

theorem contracts_scheduleTimeout :
    (scheduleTimeout store hash blobs).contracts=store.contracts := by
  unfold scheduleTimeout
  repeat' split
  all_goals rfl

theorem currentHeight_scheduleTimeout :
    (scheduleTimeout store hash blobs).currentHeight=store.currentHeight := by
  unfold scheduleTimeout
  repeat' split
  all_goals rfl

theorem dueWithin_scheduleTimeout {other : TxHash} {window : BlockHeight} :
    DueWithin (scheduleTimeout store hash blobs) other window ↔ DueWithin store other window :=
  dueWithin_congr (scheduleTimeout_unsettledTransactions store hash blobs)
    contracts_scheduleTimeout currentHeight_scheduleTimeout

theorem due_scheduleTimeout {other : TxHash} :
    Due (scheduleTimeout store hash blobs) other ↔ Due store other :=
  exists_congr fun _ => dueWithin_scheduleTimeout

/-- No timeout is lost when another one is set. -/
theorem Armed.scheduleTimeout {other : TxHash} (h : Armed store other) :
    Armed (scheduleTimeout store hash blobs) other := by
  obtain ⟨height,later,mem⟩ := h
  refine ⟨height,by rwa [currentHeight_scheduleTimeout],?_⟩
  unfold NodeState.scheduleTimeout
  split
  · split
    · dsimp only
      unfold Timeouts.set
      rw [Std.ExtTreeMap.getD_insert]
      split_ifs with heq
      · obtain rfl := Std.LawfulEqOrd.eq_of_compare heq
        exact List.mem_append_left _ mem
      · exact mem
    · exact mem
  · exact mem

/-- The next transaction is armed if its window ends later. -/
theorem armed_scheduleTimeout {window : BlockHeight}
    (hn : store.unsettledTransactions.isNextToSettle hash=true)
    (hw : getTxTimeoutWindow store blobs=.timeout window)
    (he : EndsLater store.currentHeight window) :
    Armed (scheduleTimeout store hash blobs) hash := by
  refine ⟨store.currentHeight+window,by rwa [currentHeight_scheduleTimeout],?_⟩
  unfold scheduleTimeout
  rw [if_pos hn,hw]
  simp [Timeouts.set]

theorem rescheduleTimeout_cases (store : NodeStateStore) (hash : TxHash) :
    rescheduleTimeout store hash=store ∧ store.unsettledTransactions.get hash=none ∨
      ∃ tx,store.unsettledTransactions.get hash=some tx ∧
        rescheduleTimeout store hash=scheduleTimeout store hash tx.openBlobs := by
  unfold rescheduleTimeout
  cases hg : store.unsettledTransactions.get hash with
  | none => exact Or.inl ⟨rfl,rfl⟩
  | some tx => exact Or.inr ⟨tx,rfl,rfl⟩

/-- Giving timeouts to the listed transactions leaves none of them as an exception. -/
theorem guarded_reschedule {hashes : List TxHash} {excused : TxHash → Prop}
    (hw : ∀ hash ∈ hashes,∀ window,DueWithin store hash window →
      EndsLater store.currentHeight window)
    (h : Guarded store fun hash => hash∈hashes ∨ excused hash) :
    Guarded (hashes.foldl rescheduleTimeout store) excused := by
  induction hashes generalizing store with
  | nil => simpa [Guarded] using h
  | cons first hashes ih =>
    rw [List.foldl_cons]
    obtain ⟨same,gone⟩|⟨tx,hg,set⟩ := rescheduleTimeout_cases store first
    · rw [same]
      apply ih fun hash hm => hw hash (List.mem_cons_of_mem _ hm)
      intro hash due
      obtain armed|(mem|excused) := h hash due
      · exact Or.inl armed
      · obtain rfl|tail := List.mem_cons.mp mem
        · obtain ⟨window,found,hf,_⟩ := due
          rw [gone] at hf
          cases hf
        · exact Or.inr (Or.inl tail)
      · exact Or.inr (Or.inr excused)
    · rw [set]
      apply ih
      · intro hash hm window due
        rw [dueWithin_scheduleTimeout] at due
        rw [currentHeight_scheduleTimeout]
        exact hw hash (List.mem_cons_of_mem _ hm) window due
      · intro hash due
        rw [due_scheduleTimeout] at due
        obtain armed|(mem|excused) := h hash due
        · exact Or.inl armed.scheduleTimeout
        · obtain rfl|tail := List.mem_cons.mp mem
          · obtain ⟨window,found,hf,next,hwin⟩ := id due
            obtain rfl := Option.some.inj (hg.symm.trans hf)
            have later := hw hash List.mem_cons_self window ⟨tx,hf,next,hwin⟩
            exact Or.inl (armed_scheduleTimeout next hwin later)
          · exact Or.inr (Or.inl tail)
        · exact Or.inr (Or.inr excused)

end Schedule

section Rounds
variable {env : Environment} {order : List TxHash} {work : Work} {excused : TxHash → Prop}

theorem store_applyContractChange {bth : TxHash}
    {change : ContractName × ModifiedContractData} :
    (applyContractChange bth work change).store=changeStore work.store change := by
  obtain ⟨contractName,contract,fields,sideEffects⟩ := change
  cases contract with
  | some contract => rfl
  | none =>
    have removed : ((work.pending.removeAll contractName).1.foldl
        (fun work tx => (work.pushEvent tx.hash .timedOut).locate tx)
        (work.setPending (work.pending.removeAll contractName).2)).store=
          (work.setPending (work.pending.removeAll contractName).2).store :=
      List.foldlRecOn (motive := fun w : Work =>
        w.store=(work.setPending (work.pending.removeAll contractName).2).store) _ _ rfl
        fun _ hw _ _ => hw
    exact congrArg (fun store : NodeStateStore =>
      { store with contracts := store.contracts.erase contractName }) removed

theorem store_settleContracts {bth : TxHash} {tx : UnsettledBlobTransaction}
    {result : SettlementResult} : (settleContracts bth tx result work).store=
      result.contractChanges.toList.foldl changeStore work.store := by
  have changes : ∀ (changes : List (ContractName × ModifiedContractData)) (w : Work),
      (changes.foldl (applyContractChange bth) w).store=changes.foldl changeStore w.store := by
    intro changes
    induction changes with
    | nil => exact fun _ => rfl
    | cons change changes ih =>
      intro w
      rw [List.foldl_cons,List.foldl_cons,ih,store_applyContractChange]
  exact changes _ _

theorem due_forceOutputs {bth : TxHash} {tx : UnsettledBlobTransaction} {hash : TxHash}
    (h : Due (forceOutputs bth tx work).1.store hash) : Due work.store hash := by
  revert h
  refine List.foldlRecOn
    (motive := fun state : Work × TxHashSet => Due state.1.store hash → Due work.store hash)
    _ _ id ?_
  intro state ih update _ h
  apply ih
  unfold applyNuke at h
  dsimp only at h
  split at h
  · exact h
  · exact due_pushProof h

/-- What is due after a round is due once the transaction has left, or with its changes. -/
theorem due_settleTx {bth hash : TxHash} {tx : UnsettledBlobTransaction} {rest : OrderedTxMap}
    (hr : work.pending.remove bth=some (tx,rest)) (hn : (settleTx env bth work).2≠none)
    (h : Due (settleTx env bth work).1.store hash) :
    Due (withPending work.store rest) hash ∨
      ∃ result,(tryToSettleBlobTx env work.store bth tx).2=.ok (.ok result) ∧
        Due (result.contractChanges.toList.foldl changeStore (withPending work.store rest))
          hash := by
  unfold settleTx at h hn
  simp only [hr] at h hn
  cases ht : (tryToSettleBlobTx env work.store bth tx).2 with
  | error e =>
    simp only [ht] at hn
    exact absurd rfl hn
  | ok result =>
    simp only [ht] at h
    cases result with
    | error e => exact Or.inl h
    | ok result =>
      right
      refine ⟨result,rfl,?_⟩
      have settled := due_forceOutputs h
      rwa [store_settleContracts] at settled

/-- A quiet settlement leaves what it makes due to the transactions that are tried next. -/
theorem guarded_settleTx {bth : TxHash} {next : TxHashSet}
    (hn : (settleTx env bth work).2=some next)
    (hq : Moment.Quiet env ⟨order,work,.settle bth⟩) (h : Guarded work.store excused) :
    Guarded (settleTx env bth work).1.store fun hash =>
      hash∈next ∨ hash≠bth ∧ excused hash := by
  obtain ⟨none,_⟩|⟨tx,rest,_,_,hr,_,_⟩ := settleTx_cases env bth work
  · rw [none] at hn
    cases hn
  · obtain ⟨payloads,changes⟩ := hq tx rest next hr hn
    have clock := sameClock_settleTx env bth work
    intro hash due
    have apart : hash≠bth := by
      rintro rfl
      obtain ⟨_,found,hf,_⟩ := due
      rw [get_settleTx hn] at hf
      cases hf
    have nextTxs_next : ∀ other ∈ nextTxs rest tx,other∈next := by
      intro other ho
      obtain ⟨none,_⟩|⟨tx',rest',result,settled,hr',hs,eq⟩ := settleTx_cases env bth work
      · rw [none] at hn
        cases hn
      · obtain ⟨rfl,rfl⟩ := Prod.mk.inj (Option.some.inj (hr.symm.trans hr'))
        rw [eq] at hn
        obtain rfl := Option.some.inj hn
        rw [← hs] at ho
        cases result with
        | error e => exact ho
        | ok result => exact Std.ExtTreeSet.mem_union_of_left ho
    have left : Due (withPending work.store rest) hash ∨ Armed work.store hash ∨ hash∈next := by
      obtain left|⟨result,ht,changed⟩ := due_settleTx hr (by simp [hn]) due
      · exact Or.inl left
      · exact changes result ht hash changed
    obtain left|armed|tried := left
    · obtain before|armed|tried := due_remove hr payloads left
      · obtain armed|ex := h hash before
        · exact Or.inl (clock.armed.mpr armed)
        · exact Or.inr (Or.inr ⟨apart,ex⟩)
      · exact Or.inl (clock.armed.mpr armed)
      · exact Or.inr (Or.inl (nextTxs_next hash tried))
    · exact Or.inl (clock.armed.mpr armed)
    · exact Or.inr (Or.inl tried)

/-- After the last round, only the transactions that were tried in vain may be due without a
timeout. -/
theorem guarded_settleLoop {fuel : Nat} {toTry failed : TxHashSet}
    (hf : settleBound work toTry≤fuel)
    (hq : ∀ moment ∈ settleMoments env order fuel work toTry,moment.Quiet env)
    (h : Guarded work.store fun hash => hash∈toTry ∨ hash∈failed ∨ excused hash) :
    Guarded (settleLoop env fuel work toTry failed).1.store fun hash =>
      hash∈(settleLoop env fuel work toTry failed).2 ∨ excused hash := by
  induction fuel generalizing work toTry failed with
  | zero =>
    have none := toList_eq_nil_of_settleBound hf
    intro hash due
    obtain armed|(mem|rest) := h hash due
    · exact Or.inl armed
    · rw [← Std.ExtTreeSet.mem_toList,none] at mem
      simp at mem
    · exact Or.inr rest
  | succ fuel ih =>
    unfold settleLoop
    unfold settleMoments at hq
    cases hm : toTry.toList.head? with
    | none =>
      have none := List.head?_eq_none_iff.mp hm
      intro hash due
      obtain armed|(mem|rest) := h hash due
      · exact Or.inl armed
      · rw [← Std.ExtTreeSet.mem_toList,none] at mem
        simp at mem
      · exact Or.inr rest
    | some bth =>
      simp only [hm] at hq
      have quiet := hq _ List.mem_cons_self
      have rest := fun moment hr => hq moment (List.mem_cons_of_mem _ hr)
      dsimp only
      cases hn : (settleTx env bth work).2 with
      | none =>
        have pair : settleTx env bth work=((settleTx env bth work).1,none) := Prod.ext rfl hn
        have less := settleBound_failed hm hn
        rw [pair] at rest
        apply ih (by omega) rest
        rw [store_settleTx_of_none hn]
        intro hash due
        obtain armed|(mem|vain|ex) := h hash due
        · exact Or.inl armed
        · by_cases same : hash=bth
          · subst same
            exact Or.inr (Or.inr (Or.inl (Std.ExtTreeSet.mem_insert_self)))
          · refine Or.inr (Or.inl (Std.ExtTreeSet.mem_erase.mpr ⟨?_,mem⟩))
            exact fun heq => same (Std.LawfulEqOrd.eq_of_compare heq).symm
        · exact Or.inr (Or.inr (Or.inl (Std.ExtTreeSet.mem_insert.mpr (Or.inr vain))))
        · exact Or.inr (Or.inr (Or.inr ex))
      | some next =>
        have pair : settleTx env bth work=((settleTx env bth work).1,some next) :=
          Prod.ext rfl hn
        have less := settleBound_settled hm hn
        rw [pair] at rest
        apply ih (by omega) rest
        intro hash due
        obtain armed|(tried|⟨apart,mem|ex⟩) := guarded_settleTx hn quiet h hash due
        · exact Or.inl armed
        · exact Or.inr (Or.inl (Std.ExtTreeSet.mem_union_of_right tried))
        · refine Or.inr (Or.inl (Std.ExtTreeSet.mem_union_of_left
            (Std.ExtTreeSet.mem_erase.mpr ⟨?_,mem⟩)))
          exact fun heq => apart (Std.LawfulEqOrd.eq_of_compare heq).symm
        · exact Or.inr (Or.inr ex)

theorem guarded_settleAndReschedule {toTry : TxHashSet}
    (hq : ∀ moment ∈ doneMoments env order work toTry,moment.Quiet env)
    (h : Guarded work.store fun hash => hash∈toTry ∨ excused hash) :
    Guarded (settleAndReschedule env work toTry).store excused := by
  have rounds := fun moment hm => hq moment (List.mem_append_left _ hm)
  have last := hq _ (List.mem_append_right _ (List.mem_singleton_self _))
  have settled : Guarded (settleTxsUntilDone env work toTry).1.store fun hash =>
      hash∈(settleTxsUntilDone env work toTry).2 ∨ excused hash := by
    refine guarded_settleLoop le_rfl rounds ?_
    intro hash due
    obtain armed|(mem|ex) := h hash due
    · exact Or.inl armed
    · exact Or.inr (Or.inl mem)
    · exact Or.inr (Or.inr (Or.inr ex))
  apply guarded_reschedule
  · intro hash hm window due
    exact last hash (Std.ExtTreeSet.mem_toList.mp hm) window due
  · intro hash due
    obtain armed|(mem|ex) := settled hash due
    · exact Or.inl armed
    · exact Or.inr (Or.inl (Std.ExtTreeSet.mem_toList.mpr mem))
    · exact Or.inr (Or.inr ex)

end Rounds

section Blocks
variable {env : Environment} {order : List TxHash}

theorem noStuckTx_iff {store : NodeStateStore} :
    NoStuckTx store ↔ Guarded store fun _ => False := by
  simp [NoStuckTx,Guarded]

theorem guarded_clearTimeout {state : Work × List TxHash} {hash : TxHash}
    {excused : TxHash → Prop}
    (hq : ∀ moment ∈ timeOutMoments env order state hash,moment.Quiet env)
    (h : Guarded state.1.store fun other => other=hash ∨ excused other) :
    Guarded (clearTimeout env state hash).1.store excused := by
  have leaves := hq _ List.mem_cons_self
  have rest := fun moment hr => hq moment (List.mem_cons_of_mem _ hr)
  unfold clearTimeout
  cases hr : state.1.pending.remove hash with
  | none =>
    intro other due
    obtain armed|(rfl|ex) := h other due
    · exact Or.inl armed
    · obtain ⟨_,found,hf,_⟩ := due
      obtain ⟨next,hn⟩ := exists_remove hf
      rw [Work.pending,hn] at hr
      cases hr
    · exact Or.inr ex
  | some removed =>
    obtain ⟨tx,pending⟩ := removed
    simp only [hr] at rest
    refine guarded_settleAndReschedule rest ?_
    intro other due
    have left : Due (withPending state.1.store pending) other := due
    obtain before|armed|tried := due_remove hr (leaves tx pending hr) left
    · obtain armed|(rfl|ex) := h other before
      · exact Or.inl armed
      · obtain ⟨_,found,hf,_⟩ := left
        have gone : pending.map[other]?=none := by
          rw [(remove_eq_some hr).2]
          exact Std.ExtTreeMap.getElem?_erase_self
        rw [withPending,OrderedTxMap.get,gone] at hf
        cases hf
      · exact Or.inr (Or.inr ex)
    · exact Or.inl armed
    · exact Or.inr (Or.inl tried)

theorem noStuckTx_foldl_clearTimeout {hashes : List TxHash} {state : Work × List TxHash}
    (hq : ∀ moment ∈ Trace.outputs (clearTimeout env) (timeOutMoments env order) state hashes,
      moment.Quiet env)
    (h : Guarded state.1.store fun hash => hash∈hashes) :
    NoStuckTx (hashes.foldl (clearTimeout env) state).1.store := by
  induction hashes generalizing state with
  | nil => simpa [NoStuckTx,Guarded] using h
  | cons hash hashes ih =>
    have first := fun moment hm => hq moment (List.mem_append_left _ hm)
    have rest := fun moment hm => hq moment (List.mem_append_right _ hm)
    have step : Guarded (clearTimeout env state hash).1.store fun other => other∈hashes :=
      guarded_clearTimeout first fun other due => by simpa using h other due
    exact ih rest step

/-- What was due at the height before is armed, or times out now. -/
theorem noStuckTx_clearTimeouts {store : NodeStateStore} {signedBlock : SignedBlock}
    (ho : InOrder store signedBlock) (hh : HeightQuiet store signedBlock.height)
    (hq : ∀ moment ∈ clearMoments env order (beginBlock env store signedBlock),moment.Quiet env)
    (h : NoStuckTx store) :
    NoStuckTx (clearTimeouts env (beginBlock env store signedBlock)).store := by
  refine noStuckTx_foldl_clearTimeout hq ?_
  intro hash due
  have pending : ∃ height,signedBlock.height≤height ∧ hash∈store.timeouts.getD height [] := by
    obtain before|later := hh hash ((due_congr rfl rfl rfl).mp due)
    · obtain ⟨height,after,mem⟩ := h hash before
      refine ⟨height,?_,mem⟩
      obtain next|genesis := ho
      · rw [← next,UInt64.le_iff_toNat_le,UInt64.toNat_add]
        rw [UInt64.lt_iff_toNat_lt] at after
        have bound := height.toNat_lt
        have one : (1 : UInt64).toNat=1 := rfl
        omega
      · rw [genesis.2]
        exact UInt64.zero_le
    · exact later
  obtain ⟨height,later,mem⟩ := pending
  by_cases now : height=signedBlock.height
  · refine Or.inr ?_
    show hash∈store.timeouts.getD signedBlock.height []
    rwa [← now]
  · refine Or.inl ⟨height,UInt64.lt_of_le_of_ne later (Ne.symm now),?_⟩
    have apart : compare signedBlock.height height≠.eq := fun heq =>
      now (Std.LawfulEqOrd.eq_of_compare heq).symm
    show hash∈(store.timeouts.erase signedBlock.height).getD height []
    rw [Std.ExtTreeMap.getD_erase,if_neg apart]
    exact mem

theorem store_handleBlobProof (env : Environment) (proofTxHash : TxHash) (work : Work)
    (entry : BlobProofOutput) :
    (handleBlobProof env proofTxHash work entry).1.store=work.store ∨
      ∃ index proof,(handleBlobProof env proofTxHash work entry).1.store=
        withPending work.store (work.pending.pushProof entry.blobTxHash index proof) := by
  unfold handleBlobProof
  dsimp only
  split
  · exact Or.inl rfl
  · split
    · exact Or.inl rfl
    · split
      · exact Or.inl rfl
      · exact Or.inr ⟨_,_,rfl⟩

theorem noStuckTx_handleProvenBlobs {txId : TxId} {state : Work × TxHashSet}
    {entry : BlobProofOutput} (h : NoStuckTx state.1.store) :
    NoStuckTx (handleProvenBlobs env txId state entry).1.store := by
  have step : NoStuckTx (handleBlobProof env txId.txHash state.1 entry).1.store := by
    obtain same|⟨index,proof,pushed⟩ := store_handleBlobProof env txId.txHash state.1 entry
    · rw [same]
      exact h
    · rw [pushed]
      exact fun hash due => h hash (due_pushProof due)
  unfold handleProvenBlobs
  dsimp only
  split <;> exact step

/-- A new transaction makes no other one due. -/
theorem due_add {store : NodeStateStore} {tx : UnsettledBlobTransaction} {next : OrderedTxMap}
    {isNext : Bool} (ha : store.unsettledTransactions.add tx=some (next,isNext)) {hash : TxHash}
    (h : Due (withPending store next) hash) (hne : hash≠tx.hash) : Due store hash := by
  obtain ⟨window,found,hg,hn,hw⟩ := id h
  have heads := (isNextToSettle_iff hg).mp hn
  have apart : compare tx.hash hash≠.eq := fun heq =>
    hne (Std.LawfulEqOrd.eq_of_compare heq).symm
  have old : store.unsettledTransactions.get hash=some found := by
    have new := hg
    simp only [withPending,OrderedTxMap.get,add_eq_some ha,Std.ExtTreeMap.getElem?_insert,
      if_neg apart] at new
    exact new
  refine h.of_next hg old rfl ?_ rfl rfl
  intro blob hb
  have head := heads blob hb
  have queue := (txOrder_add ha).2 blob.contractName
  simp only [withPending,getNextUnsettledTx,queue] at head ⊢
  split_ifs at head
  · cases hq : store.unsettledTransactions.txOrder.getD blob.contractName [] with
    | nil =>
      rw [hq] at head
      exact absurd (Option.some.inj head).symm hne
    | cons first rest =>
      rw [hq] at head
      exact head
  · exact head

/-- Only the new transaction may be due without a timeout. -/
theorem guarded_handleBlobTx {store next : NodeStateStore} {parentDpHash : DataProposalHash}
    {tx : BlobTransaction} {txContext : TxContext} {handled : BlobTxHandled}
    (h : NoStuckTx store)
    (hh : handleBlobTx env store parentDpHash tx txContext=.ok (handled,next)) :
    Guarded next fun hash => hash=tx.hashed env.sha3 ∧ handled≠.duplicate := by
  unfold handleBlobTx at hh
  cases hc : checkBlobTx env store tx with
  | error e => simp [hc] at hh
  | ok u =>
    simp only [hc] at hh
    split at hh
    · obtain ⟨_,rfl⟩ := Prod.mk.inj (Except.ok.inj hh)
      exact fun hash due => Or.inl (h hash due)
    · next pending isNext ha =>
      obtain ⟨kind,rfl⟩ := Prod.mk.inj (Except.ok.inj hh)
      intro hash due
      by_cases new : hash=tx.hashed env.sha3
      · refine Or.inr ⟨new,?_⟩
        rw [← kind]
        split <;> simp
      · have before : Due (withPending store pending) hash := due_scheduleTimeout.mp due
        have armed : Armed (withPending store pending) hash := h hash (due_add ha before new)
        exact Or.inl armed.scheduleTimeout

/-- The new transaction is armed as well if all its blobs give it a window that ends later. -/
theorem noStuckTx_handleBlobTx {store next : NodeStateStore} {parentDpHash : DataProposalHash}
    {tx : BlobTransaction} {txContext : TxContext} (h : NoStuckTx store)
    (hh : handleBlobTx env store parentDpHash tx txContext=.ok (.ok,next))
    (hq : Due next (tx.hashed env.sha3) → ∃ window,
      getTxTimeoutWindow next tx.blobs=.timeout window ∧ EndsLater next.currentHeight window) :
    NoStuckTx next := by
  intro hash due
  obtain armed|⟨rfl,_⟩ := guarded_handleBlobTx h hh hash due
  · exact armed
  · obtain ⟨window,hw,later⟩ := hq due
    unfold handleBlobTx at hh
    cases hc : checkBlobTx env store tx with
    | error e => simp [hc] at hh
    | ok u =>
      simp only [hc] at hh
      split at hh
      · cases hh
      · next pending isNext ha =>
        obtain ⟨_,rfl⟩ := Prod.mk.inj (Except.ok.inj hh)
        obtain ⟨_,_,_,next,_⟩ := due_scheduleTimeout.mp due
        rw [currentHeight_scheduleTimeout] at later
        simp only [getTxTimeoutWindow,contracts_scheduleTimeout,
          currentHeight_scheduleTimeout] at hw
        exact armed_scheduleTimeout next hw later

theorem shouldSettle_eq {store next : NodeStateStore} {parentDpHash : DataProposalHash}
    {tx : BlobTransaction} {txContext : TxContext} {txHash : TxHash}
    (hh : handleBlobTx env store parentDpHash tx txContext=.ok (.shouldSettle txHash,next)) :
    txHash=tx.hashed env.sha3 := by
  unfold handleBlobTx at hh
  cases hc : checkBlobTx env store tx with
  | error e => simp [hc] at hh
  | ok u =>
    simp only [hc] at hh
    split at hh
    · cases hh
    · have kind := (Prod.mk.inj (Except.ok.inj hh)).1
      split_ifs at kind
      exact (BlobTxHandled.shouldSettle.inj kind).symm

theorem noStuckTx_handleTransaction {laneId : LaneId} {txId : TxId} {work : Work}
    {data : TransactionData}
    (hq : ∀ moment ∈ handleMoments env order laneId txId work data,moment.Quiet env)
    (h : NoStuckTx work.store) :
    NoStuckTx (handleTransaction env laneId txId work data).store := by
  cases data with
  | proof tx => exact h
  | verifiedProof proofTx =>
    have settling := fun moment hm => hq moment (List.mem_append_right _ hm)
    have proven : NoStuckTx (proofTx.provenBlobs.foldl (handleProvenBlobs env txId)
        (work,∅)).1.store :=
      List.foldlRecOn (motive := fun state : Work × TxHashSet => NoStuckTx state.1.store)
        _ _ h fun _ hs _ _ => noStuckTx_handleProvenBlobs hs
    exact noStuckTx_iff.mpr (guarded_settleAndReschedule settling
      fun hash due => Or.inl (proven hash due))
  | blob tx =>
    have sequencing := hq _ List.mem_cons_self
    have settling := fun moment hm => hq moment (List.mem_cons_of_mem _ hm)
    unfold handleTransaction
    dsimp only
    cases hh : handleBlobTx env work.store txId.parentHash tx (txContext laneId work.block) with
    | error e => exact h
    | ok handled =>
      obtain ⟨handled,store⟩ := handled
      simp only [hh] at settling
      cases handled with
      | shouldSettle txHash =>
        have guarded := guarded_handleBlobTx h hh
        refine noStuckTx_iff.mpr (guarded_settleAndReschedule settling ?_)
        intro hash due
        obtain armed|⟨rfl,_⟩ := guarded hash due
        · exact Or.inl armed
        · obtain rfl := shouldSettle_eq hh
          refine Or.inr (Or.inl ?_)
          rw [Std.ExtTreeSet.mem_ofList]
          simp
      | duplicate =>
        intro hash due
        obtain armed|⟨_,ne⟩ := guarded_handleBlobTx h hh hash due
        · exact armed
        · exact absurd rfl ne
      | ok => exact noStuckTx_handleBlobTx h hh (sequencing store hh)

theorem noStuckTx_handleSignedBlock {state : List TxHash × NodeStateStore}
    {signedBlock : SignedBlock}
    (hh : InOrder state.2 signedBlock → HeightQuiet state.2 signedBlock.height)
    (hq : ∀ moment ∈ blockMoments env state signedBlock,moment.Quiet env)
    (h : NoStuckTx state.2) : NoStuckTx (handleSignedBlock env state.2 signedBlock).1 := by
  rw [← blockStep_eq]
  unfold blockMoments at hq
  unfold blockStep
  by_cases ho : InOrder state.2 signedBlock
  · rw [if_pos ho] at hq ⊢
    have cleared := noStuckTx_clearTimeouts ho (hh ho)
      (fun moment hm => hq moment (List.mem_append_left _ hm)) h
    refine Trace.foldl_of_outputs (I := fun state : List TxHash × Work => NoStuckTx state.2.store)
      (Q := fun moment => moment.Quiet env) cleared ?_
      fun moment hm => hq moment (List.mem_append_right _ hm)
    exact fun state entry _ hs hm => noStuckTx_handleTransaction hm hs
  · rw [if_neg ho]
    exact h

end Blocks

end NodeState

end TruthSeeker
