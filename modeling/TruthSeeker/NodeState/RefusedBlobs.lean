import TruthSeeker.NodeState.IdentityBinding
import TruthSeeker.NodeState.Queues
import TruthSeeker.NodeState.TimeoutInstances

namespace TruthSeeker.NodeState

open OrderedTxMap

section Definitions
variable (env : Environment)

/-- The verifier of the contract of the blob is native, and refuses the blob. -/
def Refused (store : NodeStateStore) (tx : BlobTransaction) (entry : BlobIndex × Blob) : Prop :=
  ∃ hyleOutput ∈ nativeOutput env store tx entry,hyleOutput.success=false

namespace Moment

variable (self : Moment)

/-- The transaction that the call adds to the pending ones. -/
def adds : Option BlobTransaction :=
  match self.call with
  | .sequence parentDpHash laneId tx =>
      match handleBlobTx env self.work.store parentDpHash tx (txContext laneId self.work.block) with
      | .ok (.duplicate,_) => none
      | .ok _ => some tx
      | .error _ => none
  | _ => none

/-- The call adds the transaction of the hash, and one of its blobs is refused. -/
def Refuses (hash : TxHash) : Prop :=
  ∃ tx ∈ self.adds env,tx.hashed env.sha3=hash ∧
    ∃ entry ∈ IndexedBlobs.ofBlobs tx.blobs,Refused env self.work.store tx entry

/-- If blobs of an added transaction are refused, one of them is for a listed contract. -/
def RefusesListed : Prop :=
  ∀ tx ∈ self.adds env,(∃ entry ∈ IndexedBlobs.ofBlobs tx.blobs,Refused env self.work.store tx entry) →
    ∃ entry ∈ IndexedBlobs.ofBlobs tx.blobs,Refused env self.work.store tx entry ∧
      entry.2.contractName∈NATIVE_VERIFIERS_CONTRACT_LIST

/-- The transaction leaves the pending ones, and the block lists it as failed. -/
def SettlesAsFailed (hash : TxHash) : Prop :=
  (self.after env).pending.map[hash]?=none ∧
    (self.after env).block.failedTxs=self.work.block.failedTxs++[hash]

end Moment

/-- In the past calls, the last one first, a blob of the transaction was refused when it was
added, and it has been pending ever since. -/
def RefusedSince (hash : TxHash) : List Moment → Prop
  | [] => False
  | moment::earlier => moment.Refuses env hash ∨
      moment.isPending hash=true ∧ RefusedSince hash earlier

/-- An attempt to settle a pending transaction with a refused blob settles it as failed. -/
def Moment.FailsRefused (self : Moment) (past : List Moment) : Prop :=
  match self.call with
  | .settle bth => self.isPending bth=true → RefusedSince env bth past →
      self.SettlesAsFailed env bth
  | _ => True

/-- In the calls after the past ones, refused blobs fail their transactions. -/
def RefusalsFail : List Moment → List Moment → Prop
  | _,[] => True
  | past,moment::later => moment.FailsRefused env past ∧ RefusalsFail (moment::past) later

instance (store : NodeStateStore) (tx : BlobTransaction) : DecidablePred (Refused env store tx) :=
  fun entry => inferInstanceAs (Decidable (∃ hyleOutput ∈ nativeOutput env store tx entry,
    hyleOutput.success=false))

instance (moment : Moment) : DecidablePred (moment.Refuses env) :=
  fun hash => inferInstanceAs (Decidable (∃ tx ∈ moment.adds env,tx.hashed env.sha3=hash ∧
    ∃ entry ∈ IndexedBlobs.ofBlobs tx.blobs,Refused env moment.work.store tx entry))

instance : DecidablePred (Moment.RefusesListed env) :=
  fun moment => inferInstanceAs (Decidable (∀ tx ∈ moment.adds env,
    (∃ entry ∈ IndexedBlobs.ofBlobs tx.blobs,Refused env moment.work.store tx entry) →
    ∃ entry ∈ IndexedBlobs.ofBlobs tx.blobs,Refused env moment.work.store tx entry ∧
      entry.2.contractName∈NATIVE_VERIFIERS_CONTRACT_LIST))

instance (moment : Moment) : DecidablePred (moment.SettlesAsFailed env) :=
  fun hash => inferInstanceAs (Decidable ((moment.after env).pending.map[hash]?=none ∧
    (moment.after env).block.failedTxs=moment.work.block.failedTxs++[hash]))

instance decidableRefusedSince (hash : TxHash) : DecidablePred (RefusedSince env hash)
  | [] => inferInstanceAs (Decidable False)
  | moment::earlier =>
      have := decidableRefusedSince hash earlier
      inferInstanceAs (Decidable (moment.Refuses env hash ∨
        moment.isPending hash=true ∧ RefusedSince env hash earlier))

instance decidableFailsRefused (past : List Moment) :
    (moment : Moment) → Decidable (moment.FailsRefused env past)
  | ⟨order,work,.settle bth⟩ => inferInstanceAs (Decidable ((work.pending.map[bth]?).isSome=true →
      RefusedSince env bth past → Moment.SettlesAsFailed env ⟨order,work,.settle bth⟩ bth))
  | ⟨_,_,.sequence _ _ _⟩ => inferInstanceAs (Decidable True)
  | ⟨_,_,.prove _ _⟩ => inferInstanceAs (Decidable True)
  | ⟨_,_,.timeOut _⟩ => inferInstanceAs (Decidable True)
  | ⟨_,_,.reschedule _⟩ => inferInstanceAs (Decidable True)

instance decidableRefusalsFail :
    (past later : List Moment) → Decidable (RefusalsFail env past later)
  | _,[] => inferInstanceAs (Decidable True)
  | past,moment::later =>
      have := decidableRefusalsFail (moment::past) later
      inferInstanceAs (Decidable (moment.FailsRefused env past ∧
        RefusalsFail env (moment::past) later))

end Definitions

section Hosts
variable {env : Environment} {contracts : Contracts} {tx : UnsettledBlobTransaction} {work : Work}

/-- All waiting blobs of the transaction are for contracts of the node. -/
def Hosts (contracts : Contracts) (tx : UnsettledBlobTransaction) : Prop :=
  ∀ metadata ∈ tx.blobValues,contracts.contains metadata.blob.contractName=true

/-- The queues are in some order, and the node has the contracts of all waiting blobs. -/
structure Hosted (contracts : Contracts) (pending : OrderedTxMap) : Prop where
  queued : ∃ order,Queued order pending
  hosts : All (Hosts contracts) pending

theorem contractName_mem_blockedContracts (blob : Blob) :
    blob.contractName∈blob.blockedContracts := by
  unfold Blob.blockedContracts
  split
  · exact List.mem_cons_self
  · split <;> exact List.mem_cons_self

theorem Hosts.pushProof (h : Hosts contracts tx) (index : BlobIndex)
    (proof : ProgramId × HyleOutput) : Hosts contracts (tx.pushProof index proof) := by
  intro metadata hm
  obtain ⟨i,found⟩ := (tx.pushProof index proof).mem_blobValues.mp hm
  obtain ⟨old,ho,blob,_⟩ := tx.getElem?_pushProof found
  rw [blob]
  exact h old (tx.mem_blobValues.mpr ⟨i,ho⟩)

theorem hosts_unsettledBlobTransaction {store : NodeStateStore} {parentDpHash : DataProposalHash}
    {tx : BlobTransaction} {txContext : TxContext} (h : checkBlobTx env store tx=.ok ()) :
    Hosts store.contracts (unsettledBlobTransaction env store parentDpHash tx txContext) := by
  intro metadata hm
  obtain ⟨index,found⟩ := UnsettledBlobTransaction.mem_blobValues _ |>.mp hm
  obtain ⟨entry,he,hu⟩ := List.mem_filterMap.mp (mem_of_getElem?_ofList found)
  have listed : metadata.blob∈tx.blobs := by
    have same : metadata.blob=entry.2 := by
      unfold unsettledBlob at hu
      split at hu
      · obtain rfl := (Prod.mk.inj (Option.some.inj hu)).2
        rfl
      · dsimp only at hu
        split_ifs at hu
        obtain rfl := (Prod.mk.inj (Option.some.inj hu)).2
        rfl
    rw [same]
    exact mem_of_mem_ofBlobs he
  unfold checkBlobTx at h
  split at h
  · cases h
  · split_ifs at h
    split at h
    · cases h
    · dsimp only at h
      split_ifs at h with unknown
      by_contra absent
      have mem : metadata.blob∈tx.blobs.filter fun blob =>
          ¬store.contracts.contains blob.contractName :=
        List.mem_filter.mpr ⟨listed,by simpa using absent⟩
      rw [unknown] at mem
      cases mem

namespace Hosted

theorem pushProof {pending : OrderedTxMap} (h : Hosted contracts pending) (hash : TxHash)
    (index : BlobIndex) (proof : ProgramId × HyleOutput) :
    Hosted contracts (pending.pushProof hash index proof) := by
  obtain ⟨order,queued⟩ := h.queued
  exact ⟨⟨order,queued.pushProof _ _ _⟩,
    h.hosts.pushProof fun _ _ hosts => hosts.pushProof index proof⟩

theorem remove {pending next : OrderedTxMap} {hash : TxHash} (h : Hosted contracts pending)
    (hr : pending.remove hash=some (tx,next)) : Hosted contracts next := by
  obtain ⟨order,queued⟩ := h.queued
  exact ⟨⟨order,queued.remove hr⟩,(h.hosts.remove hr).2⟩

/-- A deleted contract takes the transactions that wait for it with it. -/
theorem removeAll {pending : OrderedTxMap} (h : Hosted contracts pending)
    (contractName : ContractName) :
    Hosted (contracts.erase contractName) (pending.removeAll contractName).2 := by
  obtain ⟨order,queued⟩ := h.queued
  have taken : Queued order (pending.removeAll contractName).2 := queued.takeQueue
  have hosts : All (Hosts contracts) (pending.removeAll contractName).2 := h.hosts.takeQueue
  have empty := pending.getNextUnsettledTx_removeAll contractName
  refine ⟨⟨order,taken⟩,?_⟩
  intro hash tx ht metadata hm
  rw [Std.ExtTreeMap.contains_erase,hosts hash tx ht metadata hm,Bool.and_true]
  -- Otherwise the transaction would still be in the queue of the contract.
  have other : contractName≠metadata.blob.contractName := by
    rintro rfl
    obtain ⟨index,blob⟩ := tx.mem_blobValues.mp hm
    have blocks := blocks_eq_true.mpr ⟨tx,ht,tx.mem_blockedContracts.mpr
      ⟨index,metadata,blob,contractName_mem_blockedContracts metadata.blob⟩⟩
    have waits := List.mem_filter.mpr ⟨taken.known hash tx ht,blocks⟩
    rw [← taken.queue] at waits
    unfold getNextUnsettledTx at empty
    rw [List.head?_eq_none_iff.mp empty] at waits
    cases waits
  simpa using other

theorem applyContractChange {bth : TxHash} {change : ContractName × ModifiedContractData}
    (h : Hosted work.store.contracts work.pending) :
    Hosted (NodeState.applyContractChange bth work change).store.contracts
      (NodeState.applyContractChange bth work change).pending := by
  rw [contracts_applyContractChange]
  obtain ⟨contractName,contract,fields,sideEffects⟩ := change
  cases contract with
  | some contract =>
    refine ⟨h.queued,?_⟩
    intro hash tx ht metadata hm
    show (work.store.contracts.insert contract.name contract).contains _=true
    rw [Std.ExtTreeMap.contains_insert,h.hosts hash tx ht metadata hm,Bool.or_true]
  | none =>
    have same : (deleteContract bth work contractName).pending=
        (work.pending.removeAll contractName).2 :=
      List.foldlRecOn (motive := fun w : Work => w.pending=
        (work.pending.removeAll contractName).2) _ _ rfl fun _ hw _ _ => hw
    show Hosted _ (deleteContract bth work contractName).pending
    rw [same]
    exact h.removeAll contractName

theorem onSettledBlobTx {bth : TxHash} {result : Except Unit SettlementResult}
    (h : Hosted work.store.contracts work.pending) :
    Hosted (NodeState.onSettledBlobTx bth tx work result).1.store.contracts
      (NodeState.onSettledBlobTx bth tx work result).1.pending := by
  cases result with
  | error e => exact h
  | ok result =>
    let Kept (work : Work) := Hosted work.store.contracts work.pending
    have settled : Kept (settleContracts bth tx result work) :=
      List.foldlRecOn (motive := Kept) _ _ h fun _ hw _ _ => hw.applyContractChange
    refine List.foldlRecOn (motive := fun state : Work × TxHashSet => Kept state.1)
      _ _ settled ?_
    intro state hw update _
    unfold applyNuke
    dsimp only
    split
    · exact hw
    · exact hw.pushProof _ _ _

end Hosted

/-- Every call keeps the contracts of the waiting blobs. -/
theorem maintained_hosted (env : Environment) :
    Maintained env (fun _ => True) fun _ work => Hosted work.store.contracts work.pending where
  note _ _ _ _ h := h
  call := by
    intro past moment _ h
    obtain ⟨order,work,call⟩ := moment
    have contracts := contracts_after env ⟨order,work,call⟩
    cases call with
    | settle bth =>
      show Hosted (settleTx env bth work).1.store.contracts (settleTx env bth work).1.pending
      obtain ⟨block,_,eq⟩|⟨tx,rest,result,hr,_,eq⟩ := settleTx_outcome env bth work
      · rw [eq]
        exact h
      · rw [eq]
        have gone : Hosted (settling env bth work tx rest).store.contracts
          (settling env bth work tx rest).pending := h.remove hr
        exact gone.onSettledBlobTx
    | sequence parentDpHash laneId tx =>
      rw [contracts]
      unfold Moment.after
      dsimp only [Moment.settled]
      split
      · next handled store hh =>
        obtain ⟨checked,same|⟨isNext,added⟩⟩ := pending_handleBlobTx hh
        · show Hosted work.store.contracts store.unsettledTransactions
          rw [same]
          exact h
        · obtain ⟨queueOrder,queued⟩ := h.queued
          exact ⟨⟨_,queued.add added⟩,h.hosts.add (hosts_unsettledBlobTransaction checked) added⟩
      · exact h
    | prove proofTxHash entry =>
      rw [contracts]
      show Hosted work.store.contracts (handleBlobProof env proofTxHash work entry).1.pending
      obtain same|⟨_,_,_,pushed⟩ := pending_handleBlobProof env proofTxHash work entry
      · rw [same]
        exact h
      · rw [pushed]
        exact h.pushProof _ _ _
    | timeOut txHash =>
      rw [contracts]
      show Hosted work.store.contracts (work.drop txHash).pending
      unfold Work.drop
      split
      · exact h
      · next hr => exact h.remove hr
    | reschedule hashes =>
      rw [contracts]
      show Hosted work.store.contracts
        (hashes.toList.foldl rescheduleTimeout work.store).unsettledTransactions
      rw [unsettledTransactions_reschedule]
      exact h

end Hosts

section Failing
variable {env : Environment} {tx : UnsettledBlobTransaction} {moment : Moment}
  {past : List Moment} {hash : TxHash}

theorem nativeFailure_pushProof (h : nativeFailure tx=true) (index : BlobIndex)
    (proof : ProgramId × HyleOutput) : nativeFailure (tx.pushProof index proof)=true := by
  obtain ⟨metadata,hm,fails⟩ := List.any_eq_true.mp h
  obtain ⟨listed,failed⟩ := Bool.and_eq_true_iff.mp fails
  obtain ⟨i,found⟩ := tx.mem_blobValues.mp hm
  obtain ⟨next,hn,blob,kept⟩ : ∃ next,(tx.pushProof index proof).blobs[i]?=some next ∧
      next.blob=metadata.blob ∧ ∀ p ∈ metadata.possibleProofs,p∈next.possibleProofs := by
    obtain ⟨next,hn,blob⟩ := @tx.getElem?_of_pushProof index proof _ _ found
    refine ⟨next,hn,blob,?_⟩
    intro p hp
    obtain ⟨old,ho,_,same|⟨_,pushed⟩⟩ := tx.getElem?_pushProof hn
    · obtain rfl := Option.some.inj (found.symm.trans ho)
      rw [same]
      exact hp
    · obtain rfl := Option.some.inj (found.symm.trans ho)
      rw [pushed]
      exact List.mem_append_left _ hp
  obtain ⟨refusal,hp,refused⟩ := List.any_eq_true.mp failed
  refine List.any_eq_true.mpr ⟨next,UnsettledBlobTransaction.mem_blobValues _ |>.mpr ⟨i,hn⟩,?_⟩
  rw [blob,listed,Bool.true_and]
  exact List.any_eq_true.mpr ⟨refusal,kept refusal hp,refused⟩

/-- A refused blob waits with the failed output as its proof. -/
theorem nativeFailure_of_refused {store : NodeStateStore} {blobTx : BlobTransaction}
    {parentDpHash : DataProposalHash} {txContext : TxContext} {entry : BlobIndex × Blob} (hs : blobTx.blobs.length≤UInt64.size)
    (he : entry∈IndexedBlobs.ofBlobs blobTx.blobs) (hr : Refused env store blobTx entry)
    (hn : entry.2.contractName∈NATIVE_VERIFIERS_CONTRACT_LIST) :
    nativeFailure (unsettledBlobTransaction env store parentDpHash blobTx txContext)=true := by
  obtain ⟨hyleOutput,ho,refused⟩ := hr
  obtain ⟨verifier,hv,rfl⟩ := Option.map_eq_some_iff.mp ho
  have waits : unsettledBlob env store blobTx entry=some (entry.1,⟨entry.2,
      [(verifier.programId,
        Native.verify env (blobTx.hashed env.sha3) entry.1 blobTx.blobs entry.2 verifier)]⟩) := by
    unfold unsettledBlob
    simp [hv,refused]
  refine List.any_eq_true.mpr ⟨_,UnsettledBlobTransaction.mem_blobValues _ |>.mpr
    ⟨entry.1,getElem?_unsettledBlobTransaction hs he waits⟩,?_⟩
  simp [hn,refused]

/-- A transaction that was refused natively settles as failed at once. -/
theorem tryToSettleBlobTx_of_nativeFailure {store : NodeStateStore} {bth : TxHash}
    (hosts : Hosts store.contracts tx) (h : nativeFailure tx=true) :
    (tryToSettleBlobTx env store bth tx).2=.ok (.error ()) := by
  have registered : (tx.blobValues.all fun metadata =>
      store.contracts.contains metadata.blob.contractName)=true := List.all_eq_true.mpr hosts
  unfold tryToSettleBlobTx settlement
  simp [registered,h]

theorem settlesAsFailed {order : List TxHash} {work : Work} {bth : TxHash} {rest : OrderedTxMap}
    (hr : work.pending.remove bth=some (tx,rest))
    (ht : (tryToSettleBlobTx env work.store bth tx).2=.ok (.error ())) :
    (Moment.mk order work (.settle bth)).SettlesAsFailed env bth := by
  have after : (Moment.mk order work (.settle bth)).after env=
      settleAsFailed bth (settling env bth work tx rest) := by
    show (settleTx env bth work).1=_
    unfold settleTx
    rw [hr]
    dsimp only
    rw [ht]
    rfl
  constructor
  · rw [after]
    show rest.map[bth]?=none
    rw [(remove_eq_some hr).2]
    exact Std.ExtTreeMap.getElem?_erase_self
  · rw [after]
    rfl

/-- A proof that is there stays there until the transaction is settled. -/
theorem vetted_nativeFailure (env : Environment) (hashes : TxHash → Prop) :
    Vetted env (fun moment => moment.call.isSequence=false)
      fun tx => hashes tx.hash → nativeFailure tx=true where
  sequenced _ _ _ _ _ fits := by cases fits
  proven _ _ _ _ tx _ _ _ h same := by
    rw [tx.hash_pushProof] at same
    exact nativeFailure_pushProof (h same) _ _
  forced _ _ _ _ _ _ tx _ _ _ _ _ h _ same := by
    rw [tx.hash_pushProof] at same
    exact nativeFailure_pushProof (h same) _ _

theorem adds_eq_some {blobTx : BlobTransaction} (h : moment.adds env=some blobTx) :
    ∃ parentDpHash laneId,moment.call=.sequence parentDpHash laneId blobTx ∧
      ∃ handled store,handled≠.duplicate ∧ handleBlobTx env moment.work.store parentDpHash blobTx
        (txContext laneId moment.work.block)=.ok (handled,store) := by
  unfold Moment.adds at h
  split at h
  · next parentDpHash laneId tx hc =>
    split at h
    · cases h
    · next handled fresh hh =>
      obtain rfl := Option.some.inj h
      refine ⟨parentDpHash,laneId,hc,handled.1,handled.2,?_,hh⟩
      rintro duplicate
      exact fresh handled.2 (duplicate ▸ rfl)
    · cases h
  · cases h

theorem adds_of_fresh {order : List TxHash} {work : Work} {parentDpHash : DataProposalHash}
    {laneId : LaneId} {blobTx : BlobTransaction} {handled : BlobTxHandled} {store : NodeStateStore}
    (hh : handleBlobTx env work.store parentDpHash blobTx (txContext laneId work.block)=
      .ok (handled,store)) (fresh : handled≠.duplicate) :
    (Moment.mk order work (.sequence parentDpHash laneId blobTx)).adds env=some blobTx := by
  unfold Moment.adds
  dsimp only
  rw [hh]
  cases handled with
  | duplicate => exact absurd rfl fresh
  | shouldSettle txHash => rfl
  | ok => rfl

/-- A transaction is pending after a sequencing because it is added, or was pending before. -/
theorem pending_of_sequence {order : List TxHash} {work : Work}
    {parentDpHash : DataProposalHash} {laneId : LaneId} {blobTx : BlobTransaction}
    (ht : ((Moment.mk order work (.sequence parentDpHash laneId blobTx)).after
      env).pending.map[hash]?=some tx) :
    (work.pending.map[hash]?=none ∧ tx=unsettledBlobTransaction env work.store parentDpHash blobTx
        (txContext laneId work.block) ∧
      (Moment.mk order work (.sequence parentDpHash laneId blobTx)).adds env=some blobTx) ∨
    work.pending.map[hash]?=some tx ∧
      ∀ added ∈ (Moment.mk order work (.sequence parentDpHash laneId blobTx)).adds env,
        added.hashed env.sha3≠hash := by
  have duplicate : ∀ added ∈ (Moment.mk order work (.sequence parentDpHash laneId blobTx)).adds env,
      ∃ handled store,handled≠.duplicate ∧ added=blobTx ∧ handleBlobTx env work.store parentDpHash
        blobTx (txContext laneId work.block)=.ok (handled,store) := by
    intro added ha
    obtain ⟨_,_,call,handled,store,fresh,hh⟩ := adds_eq_some ha
    obtain ⟨rfl,rfl,rfl⟩ := Call.sequence.inj call
    exact ⟨handled,store,fresh,rfl,hh⟩
  unfold Moment.after at ht
  dsimp only at ht
  cases hh : handleBlobTx env work.store parentDpHash blobTx (txContext laneId work.block) with
  | error e =>
    rw [hh] at ht
    refine Or.inr ⟨ht,?_⟩
    intro added ha
    obtain ⟨_,_,_,_,ok⟩ := duplicate added ha
    rw [hh] at ok
    cases ok
  | ok result =>
    obtain ⟨handled,store⟩ := result
    rw [hh] at ht
    obtain ⟨_,⟨rfl,rfl⟩|⟨pending,isNext,added,fresh,rfl⟩⟩ := handleBlobTx_cases hh
    · refine Or.inr ⟨ht,?_⟩
      intro added ha
      obtain ⟨_,_,fresh,_,ok⟩ := duplicate added ha
      rw [hh] at ok
      exact absurd (Prod.mk.inj (Except.ok.inj ok)).1.symm fresh
    · have found : (scheduleTimeout (withPending work.store pending) (blobTx.hashed env.sha3)
          blobTx.blobs).unsettledTransactions.map[hash]?=some tx := ht
      rw [scheduleTimeout_unsettledTransactions] at found
      have put : pending.map[hash]?=some tx := found
      rw [add_eq_some added,Std.ExtTreeMap.getElem?_insert] at put
      split_ifs at put with same
      · have eq : blobTx.hashed env.sha3=hash := Std.LawfulEqOrd.eq_of_compare same
        have absent : work.pending.map[blobTx.hashed env.sha3]?=none :=
          getElem?_eq_none_of_add added
        rw [eq] at absent
        exact Or.inl ⟨absent,(Option.some.inj put).symm,adds_of_fresh hh fresh⟩
      · refine Or.inr ⟨put,?_⟩
        intro other ho eq
        obtain ⟨_,_,_,rfl,_⟩ := duplicate other ho
        have equal : compare (other.hashed env.sha3) hash=.eq := eq ▸ Std.ReflOrd.compare_self
        exact same equal

/-- What a call does for the transactions with refused blobs. -/
theorem nativeFailure_after (hc : moment.RefusesListed env) (hs : moment.blobCount≤UInt64.size)
    (h : All (fun tx => RefusedSince env tx.hash past → nativeFailure tx=true)
      moment.work.pending) :
    All (fun tx => RefusedSince env tx.hash (moment::past) → nativeFailure tx=true)
      (moment.after env).pending := by
  cases hq : moment.call.isSequence with
  | false =>
    have later := (vetted_nativeFailure env fun hash => RefusedSince env hash past).after hq h
    intro hash tx ht since
    obtain ⟨blobTx,added,_⟩|⟨_,earlier⟩ := since
    · obtain ⟨_,_,call,_⟩ := adds_eq_some added
      rw [call] at hq
      cases hq
    · exact later hash tx ht earlier
  | true =>
    intro hash tx ht since
    rw [OrderedTxMap.hash_eq _ hash tx ht] at since
    obtain ⟨order,work,call⟩ := moment
    cases call with
    | sequence parentDpHash laneId blobTx =>
      obtain ⟨fresh,rfl,adds⟩|⟨old,other⟩ := @pending_of_sequence _ _ _ order _ _ _ _ ht
      · obtain ⟨found,added,_,refused⟩|⟨pending,_⟩ := since
        · obtain rfl := Option.some.inj (added.symm.trans adds)
          obtain ⟨entry,he,refuses,listed⟩ := hc found added refused
          exact nativeFailure_of_refused hs he refuses listed
        · unfold Moment.isPending at pending
          rw [fresh] at pending
          cases pending
      · obtain ⟨found,added,same,_⟩|⟨_,earlier⟩ := since
        · exact absurd same (other found added)
        · have same := OrderedTxMap.hash_eq _ hash tx old
          exact h hash tx old (same ▸ earlier)
    | _ => cases hq

/-- The state and the past calls of a run in which the blobs that are refused are for listed
contracts. -/
structure Refusing (env : Environment) (past : List Moment) (contracts : Contracts)
    (pending : OrderedTxMap) : Prop where
  hosted : Hosted contracts pending
  fails : All (fun tx => RefusedSince env tx.hash past.reverse → nativeFailure tx=true) pending
  sound : RefusalsFail env [] past

theorem refusalsFail_concat {acc : List Moment} : RefusalsFail env acc (past++[moment]) ↔
    RefusalsFail env acc past ∧ moment.FailsRefused env (past.reverse++acc) := by
  induction past generalizing acc with
  | nil => simp [RefusalsFail]
  | cons first past ih => simp [RefusalsFail,ih,and_assoc]

theorem Refusing.failsRefused
    (h : Refusing env past moment.work.store.contracts moment.work.pending) :
    moment.FailsRefused env past.reverse := by
  unfold Moment.FailsRefused
  split
  · next bth hc =>
    intro pending since
    obtain ⟨tx,ht⟩ := Option.isSome_iff_exists.mp pending
    obtain ⟨rest,hr⟩ := exists_remove ht
    have same := OrderedTxMap.hash_eq _ bth tx ht
    have failure := h.fails bth tx ht (same ▸ since)
    obtain ⟨order,work,call⟩ := moment
    obtain rfl : call=.settle bth := hc
    exact settlesAsFailed hr (tryToSettleBlobTx_of_nativeFailure (h.hosted.hosts bth tx ht) failure)
  · trivial

theorem maintained_refusing (env : Environment) : Maintained env (fun _ => True) fun past work =>
    (∀ moment ∈ past,moment.RefusesListed env ∧ moment.blobCount≤UInt64.size) →
      Refusing env past work.store.contracts work.pending where
  note _ _ _ _ h := h
  call := by
    intro past moment _ h listed
    have before := h fun m hm => listed m (List.mem_append_left _ hm)
    obtain ⟨refuses,few⟩ := listed moment (by simp)
    refine ⟨(maintained_hosted env).call past moment trivial before.hosted,?_,?_⟩
    · rw [List.reverse_concat]
      exact nativeFailure_after refuses few before.fails
    · rw [refusalsFail_concat,List.append_nil]
      exact ⟨before.sound,before.failsRefused⟩

/-- In a run in which each transaction with refused blobs has one for a listed contract, every
attempt to settle such a transaction settles it as failed. -/
theorem refusalsFail (env : Environment) (signedBlocks : List SignedBlock)
    (hc : ∀ moment ∈ moments env signedBlocks,moment.RefusesListed env)
    (hs : ∀ moment ∈ moments env signedBlocks,moment.blobCount≤UInt64.size) :
    RefusalsFail env [] (moments env signedBlocks) := by
  have start : Hosted NodeStateStore.default.contracts
      NodeStateStore.default.unsettledTransactions := ⟨⟨[],Queued.start⟩,all_empty⟩
  obtain ⟨_,refusing⟩ := (maintained_refusing env).run ⟨fun _ _ h => h,fun _ _ _ h => h⟩
    (fun _ _ _ _ h => h) (fun _ _ => ⟨start,all_empty,trivial⟩) signedBlocks
  exact (refusing fun moment hm => ⟨hc moment hm,hs moment hm⟩).sound

end Failing

namespace WrongDigest

open TwoContracts (block)

/-- Registers a contract of the native verifier under the name. -/
def registerTx (name : ContractName) : BlobTransaction :=
  ⟨"hyle@hyle",[⟨"hyle",(Borsh.ser (⟨none,none,⟨"sha3_256",utf8 "sha3_256",[0],name,none,
    none⟩⟩ : StructuredBlobData RegisterContractAction)).getD []⟩]⟩

/-- A transaction with some data and a wrong digest of them. -/
def tx (name : ContractName) : BlobTransaction :=
  ⟨"alice@"++name,[⟨name,(Borsh.ser (⟨"alice@"++name,[1,2,3],[]⟩ : ShaBlob)).getD []⟩]⟩

def digest (name : ContractName) : H256 :=
  if name="sha3_256" then
    ByteVec.ofNat 32 0xd18d579e395502cbd344a166f7ec06fff701e0b774646f891c4c19797c62d2dc
  else ByteVec.ofNat 32 0xea0799fe11fd4b47755aeccd2ba8088fe3e043e06e110aa27324b1fce18b5d0c

def hash (name : ContractName) : TxHash := Bytes.hex (digest name).toList

def signedBlock (name : ContractName) : SignedBlock :=
  block [⟨1,.blob (registerTx name)⟩,⟨1,.blob (tx name)⟩]

def blobDigests : List (Bytes × H256) :=
  [([1,2,3],NativeIdentity.dataDigest),
   (NativeIdentity.blobsOf (registerTx "sha3_256"),
    ByteVec.ofNat 32 0x46ae5f3fa6a7bf421137c5c7101879bbd01b1deb0e5ad499ca2ca7cc3bf35c0c),
   (NativeIdentity.blobsOf (registerTx "foo"),
    ByteVec.ofNat 32 0x104e82c9c84a26780cd19bc44d507a4cf97813bd2f04383a1911b5e432ef23c2),
   (NativeIdentity.blobsOf (tx "sha3_256"),
    ByteVec.ofNat 32 0xd949dd499b721ee87962229f4af641ec641cea9dd5f1198e43ecffbd7f0696d3),
   (NativeIdentity.blobsOf (tx "foo"),
    ByteVec.ofNat 32 0x56b01accf02a79cec4ad4b94ddcfeb47c0b218b9b3eac8ad791f72f64c8bf648)]

def txDigests : List (Bytes × H256) :=
  let sha3 := ByteVec.lookup blobDigests
  [(Transaction.preimage sha3 (.blob (registerTx "sha3_256")),
    ByteVec.ofNat 32 0x2bfd0397738abcb5fb0415c79ab04d5bd43e4a0875539abb6d8f66703184912d),
   (Transaction.preimage sha3 (.blob (registerTx "foo")),
    ByteVec.ofNat 32 0xe4dc23dcdd6c4966a273d66f00843814235839bd5a35c27e97b351a7a988c2dc),
   (Transaction.preimage sha3 (.blob (tx "sha3_256")),digest "sha3_256"),
   (Transaction.preimage sha3 (.blob (tx "foo")),digest "foo"),
   ((signedBlock "foo").consensusProposal.preimage,
    ByteVec.ofNat 32 0x152058c4aded5c45e6c5b36c46c22faa4172e1829870023dacbcce408221b1c4)]

/-- SHA3-256 at the byte strings that the two blocks lead to. -/
def env : Environment :=
  { TwoContracts.env with sha3 := ByteVec.lookup (blobDigests++txDigests) }

/-- The transactions that an attempt of the run settles as failed. -/
def failedHashes (name : ContractName) : List TxHash :=
  (moments env [signedBlock name]).flatMap fun moment =>
    match moment.call with
    | .settle bth => if moment.SettlesAsFailed env bth then [bth] else []
    | _ => []

/-- In the first run the contract is called like its verifier. -/
theorem runs_wrongDigest :
    (failedHashes "sha3_256"=[hash "sha3_256"] ∧
      (∀ moment ∈ moments env [signedBlock "sha3_256"],moment.RefusesListed env) ∧
      ∀ moment ∈ moments env [signedBlock "sha3_256"],moment.blobCount≤UInt64.size) ∧
    failedHashes "foo"=[] ∧ ¬RefusalsFail env [] (moments env [signedBlock "foo"]) := by
  decide +kernel

end WrongDigest

open WrongDigest in
theorem refusalsFail_sha3_256 : failedHashes "sha3_256"=[WrongDigest.hash "sha3_256"] ∧
    RefusalsFail env [] (moments env [signedBlock "sha3_256"]) :=
  have ⟨failed,listed,few⟩ := runs_wrongDigest.1
  ⟨failed,refusalsFail env _ listed few⟩

open WrongDigest in
/-- The blob is refused, but its contract goes by another name than the verifier. -/
theorem not_refusalsFail : ¬RefusalsFail env [] (moments env [signedBlock "foo"]) :=
  runs_wrongDigest.2.2

end TruthSeeker.NodeState
