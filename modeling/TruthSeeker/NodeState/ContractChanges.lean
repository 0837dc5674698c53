import TruthSeeker.Framework.Maps
import TruthSeeker.NodeState.BlobSteps
import TruthSeeker.NodeState.TimeoutSchedule

namespace TruthSeeker.NodeState

/-- What one change of a settled transaction makes of the contracts. -/
def changeContract (contracts : Contracts) :
    ContractName × ModifiedContractData → Contracts
  | (contractName,none,_,_) => contracts.erase contractName
  | (_,some contract,_,_) => contracts.insert contract.name contract

section Settled
variable {env : Environment} {bth : TxHash} {tx : UnsettledBlobTransaction} {work : Work}

theorem contracts_applyContractChange (change : ContractName × ModifiedContractData) :
    (applyContractChange bth work change).store.contracts=
      changeContract work.store.contracts change := by
  obtain ⟨contractName,contract,fields,sideEffects⟩ := change
  cases contract with
  | some contract => rfl
  | none =>
    have kept : ((work.pending.removeAll contractName).1.foldl
        (fun work tx => (work.pushEvent tx.hash .timedOut).locate tx)
        (work.setPending (work.pending.removeAll contractName).2)).store.contracts=
          work.store.contracts :=
      List.foldlRecOn (motive := fun w : Work => w.store.contracts=work.store.contracts) _ _ rfl
        fun _ hw _ _ => hw
    exact congrArg (fun contracts : Contracts => contracts.erase contractName) kept

theorem contracts_settleContracts (result : SettlementResult) :
    (settleContracts bth tx result work).store.contracts=
      result.contractChanges.toList.foldl changeContract work.store.contracts := by
  have all : ∀ (changes : List (ContractName × ModifiedContractData)) (w : Work),
      (changes.foldl (applyContractChange bth) w).store.contracts=
        changes.foldl changeContract w.store.contracts := by
    intro changes
    induction changes with
    | nil => exact fun _ => rfl
    | cons change changes ih =>
      intro w
      rw [List.foldl_cons,List.foldl_cons,ih,contracts_applyContractChange]
  exact all _ _

theorem contracts_forceOutputs :
    (forceOutputs bth tx work).1.store.contracts=work.store.contracts := by
  refine List.foldlRecOn
    (motive := fun state : Work × TxHashSet => state.1.store.contracts=work.store.contracts)
    _ _ rfl ?_
  intro state hs update _
  unfold applyNuke
  dsimp only
  split <;> exact hs

/-- The state in which a settled transaction is handled, without the transaction. -/
def settling (env : Environment) (bth : TxHash) (work : Work) (tx : UnsettledBlobTransaction)
    (rest : OrderedTxMap) : Work :=
  (work.setBlock ((work.locate tx).block.pushEvents bth
    (tryToSettleBlobTx env work.store bth tx).1)).setPending rest

/-- One round of settlement in full. -/
theorem settleTx_outcome (env : Environment) (bth : TxHash) (work : Work) :
    (∃ block,Noted work.block block ∧ settleTx env bth work=(work.setBlock block,none)) ∨
    ∃ tx rest result,work.pending.remove bth=some (tx,rest) ∧
      (tryToSettleBlobTx env work.store bth tx).2=.ok result ∧
      settleTx env bth work=
        ((onSettledBlobTx bth tx (settling env bth work tx rest) result).1,
          some (onSettledBlobTx bth tx (settling env bth work tx rest) result).2) := by
  unfold settleTx
  cases hr : work.pending.remove bth with
  | none => exact Or.inl ⟨_,(Noted.locate _ _ _).trans (Noted.pushEvents _ _),rfl⟩
  | some removed =>
    obtain ⟨tx,rest⟩ := removed
    dsimp only
    cases ht : (tryToSettleBlobTx env work.store bth tx).2 with
    | error e =>
      refine Or.inl ⟨_,?_,rfl⟩
      exact ((Noted.locate _ _ _).trans (Noted.pushEvents _ _)).trans (Noted.pushEvents _ _)
    | ok result => exact Or.inr ⟨tx,rest,result,rfl,ht,rfl⟩

/-- Only a settlement as successful changes the contracts. -/
theorem contracts_settleTx (order : List TxHash) (env : Environment) (bth : TxHash)
    (work : Work) : (settleTx env bth work).1.store.contracts=
      match (Moment.mk order work (.settle bth)).settled env with
      | none => work.store.contracts
      | some (_,result) =>
          result.contractChanges.toList.foldl changeContract work.store.contracts := by
  unfold Moment.settled
  cases hr : work.pending.remove bth with
  | none =>
    simp only [settleTx,hr]
    rfl
  | some removed =>
    obtain ⟨tx,rest⟩ := removed
    cases ht : (tryToSettleBlobTx env work.store bth tx).2 with
    | error e =>
      simp only [settleTx,hr,ht]
      rfl
    | ok result =>
      simp only [settleTx,hr,ht]
      cases result with
      | error e => rfl
      | ok result =>
        show (forceOutputs bth tx (settleContracts bth tx result _)).1.store.contracts=_
        rw [contracts_forceOutputs,contracts_settleContracts]
        rfl

theorem contracts_handleBlobTx {env : Environment} {store next : NodeStateStore}
    {parentDpHash : DataProposalHash} {tx : BlobTransaction} {txContext : TxContext}
    {handled : BlobTxHandled}
    (h : handleBlobTx env store parentDpHash tx txContext=.ok (handled,next)) :
    next.contracts=store.contracts := by
  unfold handleBlobTx at h
  split at h
  · cases h
  · split at h
    · obtain ⟨_,rfl⟩ := Prod.mk.inj (Except.ok.inj h)
      rfl
    · obtain ⟨_,rfl⟩ := Prod.mk.inj (Except.ok.inj h)
      exact contracts_scheduleTimeout

theorem contracts_rescheduleTimeout (store : NodeStateStore) (hash : TxHash) :
    (rescheduleTimeout store hash).contracts=store.contracts := by
  unfold rescheduleTimeout
  split
  · exact contracts_scheduleTimeout
  · rfl

theorem contracts_handleBlobProof (env : Environment) (proofTxHash : TxHash) (work : Work)
    (entry : BlobProofOutput) :
    (handleBlobProof env proofTxHash work entry).1.store.contracts=work.store.contracts := by
  unfold handleBlobProof
  dsimp only
  split
  · rfl
  · split
    · rfl
    · split <;> rfl

/-- A proof is only noted in the block. -/
theorem noted_handleBlobProof (env : Environment) (proofTxHash : TxHash) (work : Work)
    (entry : BlobProofOutput) :
    Noted work.block (handleBlobProof env proofTxHash work entry).1.block := by
  unfold handleBlobProof
  dsimp only
  split
  · exact Noted.refl _
  · split
    · exact Noted.locate _ _ _
    · split
      · exact Noted.locate _ _ _
      · exact ⟨_,_,_,_,_,rfl⟩

/-- No other call than a settlement as successful changes the contracts. -/
theorem contracts_after (env : Environment) (moment : Moment) :
    (moment.after env).store.contracts=
      match moment.settled env with
      | none => moment.work.store.contracts
      | some (_,result) =>
          result.contractChanges.toList.foldl changeContract moment.work.store.contracts := by
  obtain ⟨order,work,call⟩ := moment
  cases call with
  | settle bth => exact contracts_settleTx order env bth work
  | sequence parentDpHash laneId tx =>
    unfold Moment.after Moment.settled
    dsimp only
    split
    · next handled store hh => exact contracts_handleBlobTx hh
    · rfl
  | prove proofTxHash entry => exact contracts_handleBlobProof env proofTxHash work entry
  | timeOut txHash =>
    unfold Moment.after Moment.settled Work.drop
    dsimp only
    split <;> rfl
  | reschedule hashes =>
    have kept : (hashes.toList.foldl rescheduleTimeout work.store).contracts=
        work.store.contracts :=
      List.foldlRecOn (motive := fun store : NodeStateStore => store.contracts=_) _ _ rfl
        fun store hs hash _ => (contracts_rescheduleTimeout store hash).trans hs
    exact kept

end Settled

section Lookup
variable {contracts : Contracts}

/-- Each change of a contract stands under the name of the contract. -/
def ChangesNamed (changes : List (ContractName × ModifiedContractData)) : Prop :=
  ∀ change ∈ changes,∀ contract,change.2.1=some contract → contract.name=change.1

theorem getElem?_changeContract {change : ContractName × ModifiedContractData}
    (hn : ∀ contract,change.2.1=some contract → contract.name=change.1) (name : ContractName) :
    (changeContract contracts change)[name]?=
      if change.1=name then change.2.1 else contracts[name]? := by
  obtain ⟨contractName,contract,fields,sideEffects⟩ := change
  cases contract with
  | none =>
    show (contracts.erase contractName)[name]?=_
    simp [Std.ExtTreeMap.getElem?_erase]
  | some contract =>
    have same : contract.name=contractName := hn contract rfl
    show (contracts.insert contract.name contract)[name]?=_
    simp [Std.ExtTreeMap.getElem?_insert,same]

/-- The contracts after a settlement as successful. -/
theorem getElem?_foldl_toList {changes : ContractChanges} (hn : ChangesNamed changes.toList)
    (name : ContractName) : (changes.toList.foldl changeContract contracts)[name]?=
      changes[name]?.elim contracts[name]? Prod.fst :=
  Maps.getElem?_foldl_toList (g := fun data _ => data.1)
    (fun change hm _ name => getElem?_changeContract (hn change hm) name) contracts name

end Lookup

end TruthSeeker.NodeState
