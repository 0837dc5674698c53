import TruthSeeker.Framework.Transitions
import TruthSeeker.NodeState.BlockDiff
import TruthSeeker.NodeState.Pending

namespace TruthSeeker.NodeState

open OrderedTxMap StateTransition

/-- The state of `settle_txs_until_done`: the work, the transactions to try, and those that were
tried in vain. -/
abbrev SettleState := Work × TxHashSet × TxHashSet

/-- One turn of `settle_txs_until_done`, which ends where there is nothing left to try. -/
def settleTurn (env : Environment) : SettleState → Option SettleState
  | (work,toTry,failed) =>
      toTry.toList.head?.map fun bth =>
        let (work,next) := settleTx env bth work
        match next with
        | none => (work,toTry.erase bth,failed.insert bth)
        | some next => (work,toTry.erase bth ∪ next,failed)

/-- One turn of the loop that empties the queue of a deleted contract. A transaction that cannot
be removed would stay at the front of the queue. -/
def deletionTurn (contractName : ContractName) :
    List UnsettledBlobTransaction × OrderedTxMap →
      Option (List UnsettledBlobTransaction × OrderedTxMap)
  | (removed,pending) =>
      (pending.getNextUnsettledTx contractName).map fun hash =>
        match pending.remove hash with
        | none => (removed,pending)
        | some (tx,rest) => (removed++[tx],rest)

variable {env : Environment} {contractName : ContractName}

theorem settleBound_settleTurn (state next : SettleState) (h : settleTurn env state=some next) :
    settleBound next.1 next.2.1<settleBound state.1 state.2.1 := by
  obtain ⟨work,toTry,failed⟩ := state
  obtain ⟨bth,hm,rfl⟩ := Option.map_eq_some_iff.mp h
  cases hn : (settleTx env bth work).2 with
  | none =>
    have less := settleBound_failed hm hn
    simpa [hn] using less
  | some txs =>
    have less := settleBound_settled hm hn
    simpa [hn] using less

/-- The first transaction of a queue is pending, so each turn removes one. -/
theorem size_deletionTurn (state next : List UnsettledBlobTransaction × OrderedTxMap)
    (h : deletionTurn contractName state=some next) : next.2.map.size<state.2.map.size := by
  obtain ⟨removed,pending⟩ := state
  obtain ⟨hash,hn,rfl⟩ := Option.map_eq_some_iff.mp h
  obtain ⟨tx,ht⟩ := exists_of_getNextUnsettledTx hn
  obtain ⟨rest,hr⟩ := exists_remove ht
  have less := size_remove hr
  simpa [hr] using less

theorem run_settleTurn {fuel : Nat} {work : Work} {toTry failed : TxHashSet} :
    settleLoop env fuel work toTry failed=
      ((Loop.run (settleTurn env) fuel (work,toTry,failed)).1,
        (Loop.run (settleTurn env) fuel (work,toTry,failed)).2.2) := by
  induction fuel generalizing work toTry failed with
  | zero => rfl
  | succ fuel ih =>
    rw [settleLoop,Loop.run,settleTurn]
    cases toTry.toList.head? with
    | none => rfl
    | some bth =>
      dsimp only [Option.map_some]
      cases (settleTx env bth work).2 with
      | none => exact ih
      | some next => exact ih

theorem run_deletionTurn {fuel : Nat} {removed : List UnsettledBlobTransaction}
    {pending : OrderedTxMap} :
    Loop.run (deletionTurn contractName) fuel (removed,pending)=
      (removed++(takeQueue contractName fuel pending).1,(takeQueue contractName fuel pending).2) := by
  induction fuel generalizing removed pending with
  | zero => simp [Loop.run,takeQueue]
  | succ fuel ih =>
    rw [Loop.run,deletionTurn,takeQueue]
    cases hn : pending.getNextUnsettledTx contractName with
    | none => simp
    | some hash =>
      obtain ⟨tx,ht⟩ := exists_of_getNextUnsettledTx hn
      obtain ⟨rest,hr⟩ := exists_remove ht
      simp [hr,ih]

theorem eq_empty_of_settleTurn {state : SettleState} (h : settleTurn env state=none) :
    state.2.1=∅ := by
  obtain ⟨work,toTry,failed⟩ := state
  have none := List.head?_eq_none_iff.mp (Option.map_eq_none_iff.mp h)
  rw [Std.ExtTreeSet.eq_empty_iff_size_eq_zero,← Std.ExtTreeSet.length_toList,none]
  rfl

/-- The settlement of any transactions ends, and there is nothing left to try. -/
theorem mem_eval_settleTurn (work : Work) (toTry : TxHashSet) :
    ((settleTxsUntilDone env work toTry).1,∅,(settleTxsUntilDone env work toTry).2)∈
      eval (settleTurn env) (work,toTry,∅) := by
  have ended : Loop.run (settleTurn env) (settleBound work toTry) (work,toTry,∅)∈
      eval (settleTurn env) (work,toTry,∅) :=
    Loop.mem_eval_run (μ := fun state : SettleState => settleBound state.1 state.2.1)
      settleBound_settleTurn le_rfl
  have done := eq_empty_of_settleTurn (mem_eval.mp ended).2
  have same : settleTxsUntilDone env work toTry=_ := run_settleTurn
  generalize Loop.run (settleTurn env) (settleBound work toTry) (work,toTry,∅)=last
    at ended done same
  obtain ⟨work',toTry',failed⟩ := last
  obtain rfl : toTry'=∅ := done
  rw [same]
  exact ended

/-- The queue of a deleted contract is emptied. -/
theorem mem_eval_deletionTurn (contractName : ContractName) (pending : OrderedTxMap) :
    pending.removeAll contractName∈eval (deletionTurn contractName) ([],pending) := by
  have ended : Loop.run (deletionTurn contractName) pending.map.size ([],pending)∈
      eval (deletionTurn contractName) ([],pending) :=
    Loop.mem_eval_run size_deletionTurn le_rfl
  rwa [run_deletionTurn] at ended

/-- Both loops of settlement end, from any store, with the results that the rest of the code
goes on with. -/
theorem settlement_loops_end (env : Environment) (work : Work) (toTry : TxHashSet)
    (contractName : ContractName) :
    ((settleTxsUntilDone env work toTry).1,∅,(settleTxsUntilDone env work toTry).2)∈
        eval (settleTurn env) (work,toTry,∅) ∧
      work.pending.removeAll contractName∈eval (deletionTurn contractName) ([],work.pending) :=
  ⟨mem_eval_settleTurn work toTry,mem_eval_deletionTurn contractName work.pending⟩

end TruthSeeker.NodeState

namespace TruthSeeker

/-- The block tells where the transaction was sequenced, in both of its maps. -/
def BlockUnderConstruction.Locates (self : BlockUnderConstruction) (txHash : TxHash) : Prop :=
  (self.dpParentHashes[txHash]?).isSome=true ∧ (self.laneIds[txHash]?).isSome=true

/-- All transactions that the block names. -/
def BlockUnderConstruction.namedTxs (self : BlockUnderConstruction) : List TxHash :=
  self.transactionsEvents.keys++self.successfulTxs++self.failedTxs++self.timedOutTxs++
    (self.blobProofOutputs.flatMap fun output => [output.proofTxHash,output.blobTxHash])++
    self.verifiedBlobs.map Prod.fst++self.registeredContracts.toList.map fun entry => entry.2.1

namespace NodeState

/-- The block locates the noted transactions and all that it names, except that there may be
events of transactions that are still awaited. -/
structure Traceable (awaited : TxHash → Prop) (noted : List TxHash)
    (block : BlockUnderConstruction) : Prop where
  noted : ∀ hash ∈ noted,block.Locates hash
  events : ∀ hash ∈ block.transactionsEvents,block.Locates hash ∨ awaited hash
  txs : ∀ hash ∈ block.successfulTxs++block.failedTxs++block.timedOutTxs,block.Locates hash
  outputs : ∀ output ∈ block.blobProofOutputs,
    block.Locates output.proofTxHash ∧ block.Locates output.blobTxHash
  verified : ∀ entry ∈ block.verifiedBlobs,block.Locates entry.1
  registered : ∀ (name : ContractName) (entry : TxHash × RegisterContractEffect × Option Bytes),
    block.registeredContracts[name]?=some entry → block.Locates entry.1

section Locates
variable {block : BlockUnderConstruction} {hash txHash : TxHash}
  {parentDpHash : DataProposalHash} {laneId : LaneId}

theorem locates_locate : (block.locate hash parentDpHash laneId).Locates hash := by
  simp [BlockUnderConstruction.Locates,BlockUnderConstruction.locate]

theorem locates_of_locates (h : block.Locates hash) :
    (block.locate txHash parentDpHash laneId).Locates hash := by
  unfold BlockUnderConstruction.Locates BlockUnderConstruction.locate
  rw [Std.ExtTreeMap.getElem?_insert,Std.ExtTreeMap.getElem?_insert]
  split
  · exact ⟨rfl,rfl⟩
  · exact h

end Locates

namespace Traceable

section Block
variable {awaited more : TxHash → Prop} {noted : List TxHash} {block : BlockUnderConstruction}
  {txHash : TxHash}

theorem mono (h : Traceable awaited noted block) (ha : ∀ hash,awaited hash → more hash)
    {fewer : List TxHash} (hn : fewer ⊆ noted) : Traceable more fewer block :=
  ⟨fun hash hm => h.noted hash (hn hm),fun hash hm => (h.events hash hm).imp_right (ha hash),
    h.txs,h.outputs,h.verified,h.registered⟩

/-- A transaction that is located needs no longer be awaited. -/
theorem locate (h : Traceable (fun hash => hash=txHash ∨ awaited hash) noted block)
    (parentDpHash : DataProposalHash) (laneId : LaneId) :
    Traceable awaited (txHash::noted) (block.locate txHash parentDpHash laneId) where
  noted := by
    intro hash hm
    obtain rfl|hm := List.mem_cons.mp hm
    · exact locates_locate
    · exact locates_of_locates (h.noted hash hm)
  events := by
    intro hash hm
    obtain located|rfl|waits := h.events hash hm
    · exact .inl (locates_of_locates located)
    · exact .inl locates_locate
    · exact .inr waits
  txs hash hm := locates_of_locates (h.txs hash hm)
  outputs output hm := (h.outputs output hm).imp locates_of_locates locates_of_locates
  verified entry hm := locates_of_locates (h.verified entry hm)
  registered name entry hm := locates_of_locates (h.registered name entry hm)

theorem pushEvents (h : Traceable awaited noted block) (ht : txHash∈noted ∨ awaited txHash)
    (events : List TransactionStateEvent) :
    Traceable awaited noted (block.pushEvents txHash events) := by
  refine ⟨h.noted,?_,h.txs,h.outputs,h.verified,h.registered⟩
  intro hash hm
  obtain same|hm := Std.ExtTreeMap.mem_insert.mp hm
  · obtain rfl := Std.LawfulEqOrd.eq_of_compare same
    exact ht.imp_left (h.noted txHash)
  · exact h.events hash hm

end Block

section Work
variable {env : Environment} {awaited : TxHash → Prop} {noted : List TxHash} {work : Work}
  {bth : TxHash}

theorem timedOut (h : Traceable awaited noted work.block) (tx : UnsettledBlobTransaction) :
    Traceable awaited (tx.hash::noted) ((work.pushEvent tx.hash .timedOut).locate tx).block := by
  have located : Traceable awaited (tx.hash::noted) (work.locate tx).block :=
    (h.mono (fun _ => .inr) (List.Subset.refl noted)).locate _ _
  exact located.pushEvents (.inl List.mem_cons_self) _

theorem recordBlob {block : BlockUnderConstruction} (h : Traceable awaited noted block)
    (hb : bth∈noted) (identity : Identity) (indices : List Nat)
    (entry : BlobIndex × UnsettledBlobMetadata) :
    Traceable awaited noted (NodeState.recordBlob bth identity indices block entry) := by
  have verified : ∀ recorded ∈ block.verifiedBlobs++[(bth,entry.1,indices[entry.1.toNat]?)],
      block.Locates recorded.1 := by
    intro recorded hm
    obtain hm|hm := List.mem_append.mp hm
    · exact h.verified recorded hm
    · rw [List.mem_singleton.mp hm]
      exact h.noted bth hb
  unfold NodeState.recordBlob
  dsimp only
  split
  · split <;> exact ⟨h.noted,h.events,h.txs,h.outputs,verified,h.registered⟩
  · exact ⟨h.noted,h.events,h.txs,h.outputs,verified,h.registered⟩

/-- Those that a deleted contract takes with it are located. -/
theorem deleteContract (h : Traceable awaited noted work.block) (contractName : ContractName) :
    Traceable awaited noted (NodeState.deleteContract bth work contractName).block := by
  have removed : Traceable awaited noted ((work.pending.removeAll contractName).1.foldl
      (fun work tx => (work.pushEvent tx.hash .timedOut).locate tx)
      (work.setPending (work.pending.removeAll contractName).2)).block := by
    refine List.foldlRecOn (motive := fun next : Work => Traceable awaited noted next.block) _ _ h ?_
    intro next hn tx _
    exact (hn.timedOut tx).mono (fun _ => id) (List.subset_cons_self _ _)
  refine ⟨removed.noted,removed.events,removed.txs,removed.outputs,removed.verified,?_⟩
  intro name entry hr
  unfold NodeState.deleteContract at hr
  dsimp only at hr
  rw [Std.ExtTreeMap.getElem?_erase] at hr
  split at hr
  · cases hr
  · exact removed.registered name entry hr

theorem registered_noteContract {block : BlockUnderConstruction} {isNew : Bool}
    {contractName name : ContractName} {contract : Contract} {fields : ModifiedContractFields}
    {sideEffects : List SideEffect} {entry : TxHash × RegisterContractEffect × Option Bytes}
    (hr : (noteContract bth isNew contractName contract fields sideEffects
      block).registeredContracts[name]?=some entry) :
    entry.1=bth ∨ block.registeredContracts[name]?=some entry := by
  have same : (NodeState.noteContract bth isNew contractName contract fields sideEffects
      block).registeredContracts=_ :=
    congrArg ContractsDiff.registered
      (contractsDiff_noteContract isNew contractName contract fields sideEffects)
  rw [same] at hr
  dsimp only at hr
  split at hr
  · rw [Std.ExtTreeMap.getElem?_insert] at hr
    split at hr
    · obtain rfl := Option.some.inj hr
      exact .inl rfl
    · exact .inr hr
  · exact .inr hr

/-- What a change of a contract leaves as it is. -/
theorem noteContract_eq (bth : TxHash) (isNew : Bool) (contractName : ContractName) (contract : Contract)
    (fields : ModifiedContractFields) (sideEffects : List SideEffect)
    (block : BlockUnderConstruction) :
    ∃ registered deleted states programIds windows,
      NodeState.noteContract bth isNew contractName contract fields sideEffects block=
        { block with
          registeredContracts := registered
          deletedContracts := deleted
          updatedStates := states
          updatedProgramIds := programIds
          updatedTimeoutWindows := windows } := by
  obtain ⟨programId,state,verifier,timeoutWindow⟩ := fields
  cases isNew <;> cases programId <;> cases state <;> cases timeoutWindow <;>
    exact ⟨_,_,_,_,_,rfl⟩

theorem noteContract {block : BlockUnderConstruction} (h : Traceable awaited noted block)
    (hb : bth∈noted) (isNew : Bool) (contractName : ContractName) (contract : Contract)
    (fields : ModifiedContractFields) (sideEffects : List SideEffect) :
    Traceable awaited noted
      (NodeState.noteContract bth isNew contractName contract fields sideEffects block) := by
  have registered : ∀ (name : ContractName)
      (entry : TxHash × RegisterContractEffect × Option Bytes),
      (NodeState.noteContract bth isNew contractName contract fields sideEffects
        block).registeredContracts[name]?=some entry → block.Locates entry.1 := by
    intro name entry hr
    obtain new|old := registered_noteContract hr
    · rw [new]
      exact h.noted bth hb
    · exact h.registered name entry old
  obtain ⟨_,_,_,_,_,eq⟩ := noteContract_eq bth isNew contractName contract fields sideEffects block
  rw [eq] at registered ⊢
  exact ⟨h.noted,h.events,h.txs,h.outputs,h.verified,registered⟩

theorem settleContracts (h : Traceable awaited noted work.block) (hb : bth∈noted)
    (tx : UnsettledBlobTransaction) (result : SettlementResult) :
    Traceable awaited noted (NodeState.settleContracts bth tx result work).block := by
  have recorded : Traceable awaited noted (tx.blobs.toList.foldl
      (NodeState.recordBlob bth tx.identity result.blobProofOutputIndices)
      (work.pushEvent bth .settled).block) :=
    List.foldlRecOn (motive := fun block => Traceable awaited noted block) _ _
      (h.pushEvents (.inl hb) _) fun _ hn entry _ => hn.recordBlob hb _ _ entry
  refine List.foldlRecOn (motive := fun next : Work => Traceable awaited noted next.block) _ _
    recorded ?_
  rintro next hn ⟨contractName,contract,fields,sideEffects⟩ _
  cases contract with
  | none => exact hn.deleteContract contractName
  | some contract => exact hn.noteContract hb _ contractName contract fields sideEffects

/-- A transaction that gets an output forced upon it is tried next. -/
theorem forceOutputs (h : Traceable awaited noted work.block) (bth : TxHash)
    (tx : UnsettledBlobTransaction) :
    Traceable (fun hash => awaited hash ∨ hash∈(NodeState.forceOutputs bth tx work).2) noted
      (NodeState.forceOutputs bth tx work).1.block := by
  refine List.foldlRecOn (motive := fun state : Work × TxHashSet =>
    Traceable (fun hash => awaited hash ∨ hash∈state.2) noted state.1.block) _ _
    (h.mono (fun _ => .inl) (List.Subset.refl _)) ?_
  intro state hs update _
  unfold applyNuke
  dsimp only
  split
  · exact hs
  · have wider : Traceable (fun hash => awaited hash ∨ hash∈state.2.insert update.1) noted
        state.1.block :=
      hs.mono (fun hash => Or.imp_right fun hm => Std.ExtTreeSet.mem_insert.mpr (.inr hm))
        (List.Subset.refl _)
    exact wider.pushEvents (.inr (.inr (by simp))) _

theorem settleAsFailed (h : Traceable awaited noted work.block) (hb : bth∈noted) :
    Traceable awaited noted (NodeState.settleAsFailed bth work).block := by
  have pushed := h.pushEvents (.inl hb) [.settledAsFailed]
  refine ⟨pushed.noted,pushed.events,?_,pushed.outputs,pushed.verified,pushed.registered⟩
  intro hash hm
  have hm : hash∈work.block.successfulTxs++(work.block.failedTxs++[bth])++
    work.block.timedOutTxs := hm
  by_cases same : hash=bth
  · exact same ▸ h.noted bth hb
  · refine h.txs hash ?_
    simpa [same] using hm

theorem succeed (h : Traceable awaited noted work.block) (hb : bth∈noted) :
    Traceable awaited noted (NodeState.succeed bth work).block := by
  refine ⟨h.noted,h.events,?_,h.outputs,h.verified,h.registered⟩
  intro hash hm
  have hm : hash∈work.block.successfulTxs++[bth]++work.block.failedTxs++
    work.block.timedOutTxs := hm
  by_cases same : hash=bth
  · exact same ▸ h.noted bth hb
  · refine h.txs hash ?_
    simpa [same] using hm

theorem onSettledBlobTx (h : Traceable awaited noted work.block) (hb : bth∈noted)
    (tx : UnsettledBlobTransaction) (result : Except Unit SettlementResult) :
    Traceable (fun hash => awaited hash ∨ hash∈(NodeState.onSettledBlobTx bth tx work result).2)
      noted (NodeState.onSettledBlobTx bth tx work result).1.block := by
  cases result with
  | error e => exact (h.settleAsFailed hb).mono (fun _ => .inl) (List.Subset.refl _)
  | ok result =>
    have forced := ((h.settleContracts hb tx result).forceOutputs bth tx).succeed hb
    exact forced.mono
      (fun hash => Or.imp_right fun hm => Std.ExtTreeSet.mem_union_iff.mpr (.inr hm))
      (List.Subset.refl _)

/-- A round of settlement locates the transaction that it tries. -/
theorem settleTx {toTry : TxHashSet} (h : Traceable (· ∈ toTry) noted work.block) :
    Traceable (fun hash => hash∈toTry.erase bth ∨
      ∃ next,(NodeState.settleTx env bth work).2=some next ∧ hash∈next) noted
      (NodeState.settleTx env bth work).1.block := by
  have split : Traceable (fun hash => hash=bth ∨ hash∈toTry.erase bth) noted work.block := by
    refine h.mono ?_ (List.Subset.refl _)
    intro hash hm
    by_cases same : hash=bth
    · exact .inl same
    · refine .inr (Std.ExtTreeSet.mem_erase.mpr ⟨?_,hm⟩)
      exact fun eq => same (Std.LawfulEqOrd.eq_of_compare eq).symm
  have unlist := List.subset_cons_self bth noted
  unfold NodeState.settleTx
  cases hr : work.pending.remove bth with
  | none =>
    exact ((split.locate _ _).pushEvents (.inl List.mem_cons_self) _).mono (fun _ => .inl) unlist
  | some removed =>
    obtain ⟨tx,rest⟩ := removed
    have same : tx.hash=bth := work.pending.hash_eq bth tx (OrderedTxMap.remove_eq_some hr).1
    subst same
    have located : Traceable (· ∈ toTry.erase tx.hash) (tx.hash::noted) (work.locate tx).block :=
      split.locate tx.parentDpHash tx.txContext.laneId
    have tried := located.pushEvents (.inl List.mem_cons_self)
      (tryToSettleBlobTx env work.store tx.hash tx).1
    dsimp only
    cases (tryToSettleBlobTx env work.store tx.hash tx).2 with
    | error e =>
      exact (tried.pushEvents (.inl List.mem_cons_self) _).mono (fun _ => .inl) unlist
    | ok result =>
      have start : Traceable (· ∈ toTry.erase tx.hash) (tx.hash::noted)
        ((work.setBlock ((work.locate tx).block.pushEvents tx.hash
          (tryToSettleBlobTx env work.store tx.hash tx).1)).setPending rest).block := tried
      refine (start.onSettledBlobTx List.mem_cons_self tx result).mono ?_ unlist
      intro hash
      exact Or.imp_right fun hm => ⟨_,rfl,hm⟩

theorem settleTurn {state next : SettleState}
    (h : Traceable (· ∈ state.2.1) noted state.1.block)
    (hn : NodeState.settleTurn env state=some next) :
    Traceable (· ∈ next.2.1) noted next.1.block := by
  obtain ⟨work,toTry,failed⟩ := state
  obtain ⟨bth,_,rfl⟩ := Option.map_eq_some_iff.mp hn
  have step : Traceable _ noted (NodeState.settleTx env bth work).1.block := h.settleTx
  dsimp only
  cases hs : (NodeState.settleTx env bth work).2 with
  | none =>
    refine step.mono ?_ (List.Subset.refl _)
    intro hash hm
    simpa [hs] using hm
  | some txs =>
    refine step.mono ?_ (List.Subset.refl _)
    intro hash hm
    simpa [hs,Std.ExtTreeSet.mem_union_iff] using hm

/-- Settlement ends with nothing left to try, so nothing is awaited. -/
theorem settleAndReschedule {toTry : TxHashSet} (h : Traceable (· ∈ toTry) noted work.block) :
    Traceable (fun _ => False) noted (NodeState.settleAndReschedule env work toTry).block := by
  have all : ((settleTxsUntilDone env work toTry).1,∅,(settleTxsUntilDone env work toTry).2)∈_ :=
    mem_eval_settleTurn work toTry
  have ended := Loop.of_mem_eval
    (I := fun state : SettleState => Traceable (· ∈ state.2.1) noted state.1.block)
    (fun _ _ hs hn => hs.settleTurn hn) h all
  refine ended.1.mono ?_ (List.Subset.refl _)
  intro hash hm
  simp at hm

end Work

section Block
variable {env : Environment} {noted : List TxHash} {work : Work}

theorem clearTimeout {state : Work × List TxHash} {txHash : TxHash}
    (h : Traceable (fun _ => False) state.2 state.1.block) :
    Traceable (fun _ => False) (NodeState.clearTimeout env state txHash).2
      (NodeState.clearTimeout env state txHash).1.block := by
  unfold NodeState.clearTimeout
  split
  · exact h
  · next tx rest hr =>
    have same : tx.hash=txHash := state.1.pending.hash_eq txHash tx (OrderedTxMap.remove_eq_some hr).1
    have gone : Traceable (fun _ => False) state.2 (state.1.setPending rest).block := h
    have listed : state.2++[txHash] ⊆ tx.hash::state.2 := by
      rw [same]
      intro hash hm
      simpa [or_comm] using hm
    exact ((gone.timedOut tx).mono (fun _ => False.elim) listed).settleAndReschedule

theorem clearTimeouts (h : Traceable (fun _ => False) [] work.block) :
    Traceable (fun _ => False) [] (NodeState.clearTimeouts env work).block := by
  let started : Work := ⟨{ work.store with
    timeouts := work.store.timeouts.erase work.block.blockHeight },work.block⟩
  let cleared := (work.store.timeouts.getD work.block.blockHeight []).foldl
    (NodeState.clearTimeout env) (started,[])
  have all : Traceable (fun _ => False) cleared.2 cleared.1.block :=
    List.foldlRecOn (motive := fun state : Work × List TxHash =>
      Traceable (fun _ => False) state.2 state.1.block) _ _ h fun _ hs _ _ => hs.clearTimeout
  refine ⟨by simp,all.events,?_,all.outputs,all.verified,all.registered⟩
  intro hash hm
  obtain hm|hm := List.mem_append.mp hm
  · exact all.txs hash (List.mem_append_left _ hm)
  · exact all.noted hash hm

theorem handleBlobProof {proofTxHash : TxHash} (h : Traceable (fun _ => False) noted work.block)
    (hp : proofTxHash∈noted) (entry : BlobProofOutput) :
    Traceable (fun _ => False) noted
      (NodeState.handleBlobProof env proofTxHash work entry).1.block := by
  unfold NodeState.handleBlobProof
  dsimp only
  cases hg : work.pending.getForSettlement entry.blobTxHash with
  | none => exact h
  | some found =>
    obtain ⟨unsettledTx,shouldSettle⟩ := found
    obtain ⟨tx,hf,hp'⟩ := Option.map_eq_some_iff.mp hg
    obtain ⟨rfl,_⟩ := Prod.mk.inj hp'
    have same : tx.hash=entry.blobTxHash := work.pending.hash_eq _ tx hf
    have located : Traceable (fun _ => False) (tx.hash::noted) (work.locate tx).block :=
      (h.mono (fun _ => .inr) (List.Subset.refl _)).locate _ _
    have unlist := List.subset_cons_self tx.hash noted
    dsimp only
    split
    · exact located.mono (fun _ => id) unlist
    · split
      · exact located.mono (fun _ => id) unlist
      · next metadata _ =>
        have listed : entry.blobTxHash∈tx.hash::noted := by simp [same]
        have pushed := located.pushEvents (.inl listed)
          [.newProof entry.hyleOutput.index proofTxHash entry.hyleOutput.programOutputs]
        refine ⟨fun hash hm => pushed.noted hash (unlist hm),pushed.events,pushed.txs,?_,
          pushed.verified,pushed.registered⟩
        intro output hm
        obtain hm|hm := List.mem_append.mp hm
        · exact pushed.outputs output hm
        · rw [List.mem_singleton.mp hm]
          exact ⟨pushed.noted proofTxHash (unlist hp),pushed.noted tx.hash List.mem_cons_self⟩

theorem handleProvenBlobs {txId : TxId} {state : Work × TxHashSet}
    (h : Traceable (fun _ => False) noted state.1.block) (ht : txId.txHash∈noted)
    (entry : BlobProofOutput) :
    Traceable (fun _ => False) noted
      (NodeState.handleProvenBlobs env txId state entry).1.block := by
  have step : Traceable (fun _ => False) noted
    (NodeState.handleBlobProof env txId.txHash state.1 entry).1.block := h.handleBlobProof ht entry
  unfold NodeState.handleProvenBlobs
  dsimp only
  split
  · exact step
  · exact step
  · exact step.pushEvents (.inl ht) _

theorem handleTransaction {laneId : LaneId} {txId : TxId} {data : TransactionData}
    (h : Traceable (fun _ => False) noted work.block) (ht : txId.txHash∈noted) :
    Traceable (fun _ => False) noted
      (NodeState.handleTransaction env laneId txId work data).block := by
  cases data with
  | proof tx => exact h
  | verifiedProof proofTx =>
    have proven : Traceable (fun _ => False) noted
        (proofTx.provenBlobs.foldl (NodeState.handleProvenBlobs env txId) (work,∅)).1.block :=
      List.foldlRecOn (motive := fun state : Work × TxHashSet =>
        Traceable (fun _ => False) noted state.1.block) _ _ h
        fun _ hs entry _ => hs.handleProvenBlobs ht entry
    exact (proven.mono (fun _ => False.elim) (List.Subset.refl _)).settleAndReschedule
  | blob tx =>
    unfold NodeState.handleTransaction
    dsimp only
    cases handleBlobTx env work.store txId.parentHash tx (txContext laneId work.block) with
    | error e =>
      have pushed := h.pushEvents (.inl ht)
        [.error ("Failed to handle blob transaction: "++env.debug.error e)]
      refine ⟨pushed.noted,pushed.events,?_,pushed.outputs,pushed.verified,pushed.registered⟩
      intro hash hm
      have hm : hash∈work.block.successfulTxs++(work.block.failedTxs++[txId.txHash])++
        work.block.timedOutTxs := hm
      by_cases same : hash=txId.txHash
      · exact same ▸ h.noted txId.txHash ht
      · refine h.txs hash ?_
        simpa [same] using hm
    | ok handled =>
      obtain ⟨handled,store⟩ := handled
      cases handled with
      | shouldSettle txHash =>
        have next : Traceable (· ∈ (.ofList [txHash] : TxHashSet)) noted
            (⟨store,work.block⟩ : Work).block :=
          h.mono (fun _ => False.elim) (List.Subset.refl _)
        exact next.settleAndReschedule
      | duplicate =>
        have pushed := h.pushEvents (.inl ht) [.droppedAsDuplicate]
        exact ⟨pushed.noted,pushed.events,pushed.txs,pushed.outputs,pushed.verified,
          pushed.registered⟩
      | ok => exact h.pushEvents (.inl ht) _

theorem handleTx (h : Traceable (fun _ => False) [] work.block)
    (entry : LaneId × TxId × Transaction) :
    Traceable (fun _ => False) [] (NodeState.handleTx env work entry).block := by
  obtain ⟨laneId,txId,tx⟩ := entry
  have located : Traceable (fun _ => False) [txId.txHash]
      (work.setBlock (work.block.locate txId.txHash txId.parentHash laneId)).block :=
    (h.mono (fun _ => .inr) (List.Subset.refl _)).locate _ _
  exact (located.handleTransaction List.mem_cons_self).mono (fun _ => id) (List.nil_subset _)

theorem startBlock (signedBlock : SignedBlock) :
    Traceable (fun _ => False) [] (NodeState.startBlock env signedBlock) := by
  constructor <;> simp [NodeState.startBlock]

end Block

/-- Where nothing is awaited, all that the block names is located. -/
theorem namedTxs {block : BlockUnderConstruction} (h : Traceable (fun _ => False) [] block) :
    ∀ hash ∈ block.namedTxs,block.Locates hash := by
  intro hash hm
  simp only [BlockUnderConstruction.namedTxs,List.mem_append,List.mem_flatMap,List.mem_map] at hm
  obtain (((((hm|hm)|hm)|hm)|⟨output,ho,hm⟩)|⟨entry,he,rfl⟩)|⟨entry,he,rfl⟩ := hm
  · obtain located|waits := h.events hash (Std.ExtTreeMap.mem_keys.mp hm)
    · exact located
    · cases waits
  · exact h.txs hash (by simp [hm])
  · exact h.txs hash (by simp [hm])
  · exact h.txs hash (by simp [hm])
  · obtain rfl|hm := List.mem_cons.mp hm
    · exact (h.outputs output ho).1
    · rw [List.mem_singleton.mp hm]
      exact (h.outputs output ho).2
  · exact h.verified entry he
  · exact h.registered entry.1 entry.2 (Std.ExtTreeMap.mem_toList_iff_getElem?_eq_some.mp he)

end Traceable

/-- The block that a signed block leads to locates every transaction that it names. -/
theorem locates_namedTxs {env : Environment} {store next : NodeStateStore}
    {signedBlock : SignedBlock} {block : Block}
    (h : handleSignedBlock env store signedBlock=(next,.ok block)) :
    ∀ hash ∈ block.namedTxs,block.Locates hash := by
  unfold handleSignedBlock at h
  split at h
  · cases h
  · obtain ⟨_,hb⟩ := Prod.mk.inj h
    obtain rfl := Except.ok.inj hb
    have cleared : Traceable (fun _ => False) []
        (clearTimeouts env (beginBlock env store signedBlock)).block :=
      (Traceable.startBlock signedBlock).clearTimeouts
    exact (List.foldlRecOn (motive := fun work : Work => Traceable (fun _ => False) [] work.block)
      _ _ cleared fun _ hs entry _ => hs.handleTx entry).namedTxs

end NodeState

end TruthSeeker
