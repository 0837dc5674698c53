import TruthSeeker.NodeState.BlockDiff

namespace TruthSeeker.NodeState

/-- All fields that a block can note are among the changed ones. -/
def AllFields (fields : ModifiedContractFields) : Prop :=
  fields.state=true ∧ fields.programId=true ∧ fields.timeoutWindow=true

/-- Of a contract that is not there yet all fields are changed. -/
def NewFlagged (contracts : Contracts) (changes : ContractChanges) : Prop :=
  ∀ (name : ContractName) (data : ModifiedContractData),changes[name]?=some data →
    contracts[name]?=none → ∀ contract,data.1=some contract → AllFields data.2.1

section Flags
variable {env : Environment} {contracts : Contracts} {changes next : ContractChanges}

theorem NewFlagged.insert (h : NewFlagged contracts changes) {name : ContractName}
    {data : ModifiedContractData}
    (hd : contracts[name]?=none → ∀ contract,data.1=some contract → AllFields data.2.1) :
    NewFlagged contracts (changes.insert name data) := by
  intro other found hf absent contract hc
  rw [Std.ExtTreeMap.getElem?_insert] at hf
  split_ifs at hf with heq
  · obtain rfl := Std.LawfulEqOrd.eq_of_compare heq
    obtain rfl := Option.some.inj hf
    exact hd absent contract hc
  · exact h other found hf absent contract hc

theorem newFlagged_applyEffect {contract : Contract} {blob : Blob} {effect : OnchainEffect}
    (h : NewFlagged contracts changes) (he : applyEffect env contract blob changes effect=.ok next) :
    NewFlagged contracts next := by
  cases effect with
  | registerContract effect =>
    unfold applyEffect at he
    obtain ⟨_,_,he⟩ := Outcome.bind_eq_ok.mp he
    split at he
    · cases he
    · obtain rfl := Except.ok.inj he
      exact h.insert fun _ _ _ => ⟨rfl,rfl,rfl⟩
  | deleteContract name =>
    unfold applyEffect at he
    obtain ⟨_,_,he⟩ := Outcome.bind_eq_ok.mp he
    obtain rfl := Except.ok.inj he
    apply h.insert
    intro _ c hc
    split at hc <;> cases hc

theorem newFlagged_foldlM_applyEffect {contract : Contract} {blob : Blob}
    {effects : List OnchainEffect} (h : NewFlagged contracts changes)
    (he : effects.foldlM (applyEffect env contract blob) changes=.ok next) :
    NewFlagged contracts next ∧ ∀ name : ContractName,next[name]?=none → changes[name]?=none := by
  induction effects generalizing changes with
  | nil =>
    obtain rfl := Except.ok.inj he
    exact ⟨h,fun _ => id⟩
  | cons effect effects ih =>
    rw [List.foldlM_cons] at he
    obtain ⟨mid,hm,hr⟩ := Outcome.bind_eq_ok.mp he
    obtain ⟨flagged,absent⟩ := ih (newFlagged_applyEffect h hm) hr
    refine ⟨flagged,?_⟩
    intro name hn
    have gone := absent name hn
    obtain ⟨data,rfl,_,_⟩ := applyEffect_eq_ok hm
    rw [Std.ExtTreeMap.getElem?_insert] at gone
    split_ifs at gone
    exact gone

theorem newFlagged_processProof (hc : WellNamed contracts) (hn : WellNamedChanges changes)
    (h : NewFlagged contracts changes) {contractName : ContractName}
    {proof : ProgramId × HyleOutput} {blob : Blob}
    (hp : processProof env contracts changes contractName proof blob=.ok next) :
    NewFlagged contracts next := by
  obtain ⟨contract,mid,hg,_,_,_,he,rfl⟩ := processProof_eq_ok hp
  obtain ⟨flagged,absent⟩ := newFlagged_foldlM_applyEffect h he
  have name := (wellNamed_getContract hc hn hg).1
  apply flagged.insert
  intro fresh c hc'
  cases hm : mid[contract.name]? with
  | none =>
    have untouched := absent _ hm
    rw [name] at untouched fresh
    obtain ⟨data,hd,_⟩|⟨_,found⟩ := getContract_eq_ok hg
    · rw [untouched] at hd
      cases hd
    · rw [fresh] at found
      cases found
  | some data =>
    obtain ⟨copy,fields,effects⟩ := data
    cases copy with
    | none =>
      simp only [hm] at hc'
      cases hc'
    | some found =>
      simp only [hm] at hc' ⊢
      obtain ⟨_,programId,timeoutWindow⟩ := flagged _ _ hm fresh found rfl
      exact ⟨rfl,programId,timeoutWindow⟩

theorem newFlagged_handleUpdateBlob (h : NewFlagged contracts changes)
    {contractName : ContractName} {set : Contract → Contract}
    {mark : ModifiedContractFields → ModifiedContractFields} {effect : SideEffect}
    (hs : ∀ {fields},AllFields fields → AllFields (mark fields))
    (hu : HyleTld.handleUpdateBlob contracts changes contractName set mark effect=.ok next) :
    NewFlagged contracts next := by
  unfold HyleTld.handleUpdateBlob at hu
  split_ifs at hu
  obtain ⟨contract,hg,hu⟩ := Outcome.bind_eq_ok.mp hu
  obtain rfl := Except.ok.inj hu
  apply h.insert
  intro fresh c hc
  cases hf : changes[contractName]? with
  | none =>
    obtain ⟨data,hd,_⟩|⟨_,found⟩ := getContract_eq_ok hg
    · rw [hf] at hd
      cases hd
    · rw [fresh] at found
      cases found
  | some data =>
    obtain ⟨copy,fields,effects⟩ := data
    simp only [hf] at hc ⊢
    obtain ⟨found,rfl,rfl⟩ := Option.map_eq_some_iff.mp hc
    exact hs (h _ _ hf fresh found rfl)

theorem newFlagged_handleBlobForHyleTld (h : NewFlagged contracts changes) {blob : Blob}
    (hb : HyleTld.handleBlobForHyleTld env contracts changes blob=.ok next) :
    NewFlagged contracts next := by
  unfold HyleTld.handleBlobForHyleTld at hb
  split at hb
  · unfold HyleTld.handleRegisterBlob at hb
    obtain ⟨_,_,hb⟩ := Outcome.bind_eq_ok.mp hb
    split_ifs at hb
    obtain rfl := Except.ok.inj hb
    exact h.insert fun _ _ _ => ⟨rfl,rfl,rfl⟩
  · split at hb
    · unfold HyleTld.handleDeleteBlob at hb
      split_ifs at hb
      obtain rfl := Except.ok.inj hb
      apply h.insert
      intro _ c hc
      cases hc
    · split at hb
      · unfold HyleTld.handleUpdateProgramIdBlob at hb
        refine newFlagged_handleUpdateBlob h ?_ hb
        exact fun hf => ⟨hf.1,rfl,hf.2.2⟩
      · split at hb
        · unfold HyleTld.handleUpdateTimeoutWindowBlob at hb
          refine newFlagged_handleUpdateBlob h ?_ hb
          exact fun hf => ⟨hf.1,hf.2.1,rfl⟩
        · split at hb
          · obtain rfl := Except.ok.inj hb
            exact h
          · cases hb

theorem newFlagged_applied {tx : UnsettledBlobTransaction} {steps : List BlobStep}
    (hc : WellNamed contracts) (h : Applied env contracts ∅ tx.blobValues steps changes) :
    WellNamedChanges changes ∧ NewFlagged contracts changes := by
  have empty : NewFlagged contracts ∅ := by
    intro name data hf
    simp at hf
  refine (h.induct (I := fun changes => WellNamedChanges changes ∧
    NewFlagged contracts changes) ?_ ?_ ⟨WellNamedChanges.empty,empty⟩).1
  · intro changes next metadata _ _ hb hi
    exact ⟨wellNamed_handleBlobForHyleTld hc hi.1 hb,newFlagged_handleBlobForHyleTld hi.2 hb⟩
  · intro changes next metadata _ proof _ _ hp hi
    exact ⟨wellNamed_processProof hc hi.1 hp,newFlagged_processProof hc hi.1 hi.2 hp⟩

end Flags

/-- A contract that the block registers is under its name there, and the block notes all its
fields. -/
def Rewritten (diff : ContractsDiff) : Prop :=
  ∀ (name : ContractName) registered,diff.registered[name]?=some registered →
    registered.2.1.contractName=name ∧ diff.states.contains name=true ∧
      diff.programIds.contains name=true ∧ diff.timeoutWindows.contains name=true

section Blocks
variable {env : Environment} {bth : TxHash}

theorem rewritten_noteContract {block : BlockUnderConstruction} {isNew : Bool}
    {contract : Contract} {fields : ModifiedContractFields} {sideEffects : List SideEffect}
    (h : Rewritten block.contractsDiff) (hf : isNew=true → AllFields fields) :
    Rewritten (noteContract bth isNew contract.name contract fields sideEffects
      block).contractsDiff := by
  have kept : ∀ {α : Type} {flag : Bool} {m : Std.ExtTreeMap ContractName α} {a : α}
      {name : ContractName},m.contains name=true →
        (if flag then m.insert contract.name a else m).contains name=true := by
    intro α flag m a name hm
    cases flag
    · exact hm
    · simp [Std.ExtTreeMap.contains_insert,hm]
  rw [contractsDiff_noteContract]
  intro name registered hr
  cases isNew with
  | false =>
    obtain ⟨same,states,programIds,windows⟩ := h name registered hr
    exact ⟨same,kept states,kept programIds,kept windows⟩
  | true =>
    obtain ⟨state,programId,window⟩ := hf rfl
    simp only [if_true,Std.ExtTreeMap.getElem?_insert] at hr
    split_ifs at hr with heq
    · obtain rfl := Std.LawfulEqOrd.eq_of_compare heq
      obtain rfl := Option.some.inj hr
      simp [state,programId,window]
    · obtain ⟨same,states,programIds,windows⟩ := h name registered hr
      exact ⟨same,kept states,kept programIds,kept windows⟩

theorem rewritten_applyContractChange {work : Work} {change : ContractName × ModifiedContractData}
    (hn : ∀ contract,change.2.1=some contract → contract.name=change.1)
    (hf : work.store.contracts[change.1]?=none → ∀ contract,change.2.1=some contract →
      AllFields change.2.2.1) (h : Rewritten work.block.contractsDiff) :
    Rewritten (applyContractChange bth work change).block.contractsDiff := by
  obtain ⟨contractName,data,fields,sideEffects⟩ := change
  cases data with
  | some contract =>
    obtain rfl : contract.name=contractName := hn contract rfl
    refine rewritten_noteContract h ?_
    intro new
    have absent := of_decide_eq_true new
    rw [Std.ExtTreeMap.contains_eq_isSome_getElem?,Option.not_isSome_iff_eq_none] at absent
    exact hf absent contract rfl
  | none =>
    have kept : ∀ (txs : List UnsettledBlobTransaction) (w : Work),
        (txs.foldl (fun work tx => (work.pushEvent tx.hash .timedOut).locate tx)
          w).block.contractsDiff=w.block.contractsDiff := by
      intro txs w
      exact List.foldlRecOn
        (motive := fun next : Work => next.block.contractsDiff=w.block.contractsDiff) _ _ rfl
        fun _ hnext _ _ => hnext
    have same := kept (work.pending.removeAll contractName).1
      (work.setPending (work.pending.removeAll contractName).2)
    have erased : (applyContractChange bth work
        (contractName,none,fields,sideEffects)).block.contractsDiff=
        { work.block.contractsDiff with
          registered := work.block.contractsDiff.registered.erase contractName
          deleted := work.block.contractsDiff.deleted.insert contractName bth } :=
      congrArg (fun d : ContractsDiff => { d with
        registered := d.registered.erase contractName
        deleted := d.deleted.insert contractName bth }) same
    rw [erased]
    intro name registered hr
    simp only [Std.ExtTreeMap.getElem?_erase] at hr
    split_ifs at hr
    exact h name registered hr

theorem rewritten_foldl_applyContractChange
    {changes : List (ContractName × ModifiedContractData)} {work : Work}
    (hd : (changes.map Prod.fst).Nodup)
    (hn : ∀ change ∈ changes,∀ contract,change.2.1=some contract → contract.name=change.1)
    (hf : ∀ change ∈ changes,work.store.contracts[change.1]?=none →
      ∀ contract,change.2.1=some contract → AllFields change.2.2.1)
    (h : Rewritten work.block.contractsDiff) :
    Rewritten (changes.foldl (applyContractChange bth) work).block.contractsDiff := by
  induction changes generalizing work with
  | nil => exact h
  | cons change changes ih =>
    obtain ⟨fresh,distinct⟩ := List.nodup_cons.mp hd
    have named := hn change List.mem_cons_self
    have first := @rewritten_applyContractChange bth work change named
      (hf change List.mem_cons_self) h
    refine ih distinct (fun c hc => hn c (List.mem_cons_of_mem _ hc)) ?_ first
    intro c hc
    have apart : change.1≠c.1 := fun heq => fresh (heq ▸ List.mem_map_of_mem hc)
    rw [contracts_applyContractChange,getElem?_changeContract named,if_neg apart]
    exact hf c (List.mem_cons_of_mem _ hc)

theorem rewritten_settleTx {work : Work}
    (hw : WellNamed work.store.contracts) (h : Rewritten work.block.contractsDiff) :
    Rewritten (settleTx env bth work).1.block.contractsDiff := by
  obtain ⟨block,noted,eq⟩|⟨tx,rest,result,hr,ht,eq⟩ := settleTx_outcome env bth work
  · rw [eq]
    show Rewritten block.contractsDiff
    rw [contractsDiff_noted noted]
    exact h
  · rw [eq]
    cases result with
    | error e => exact h
    | ok result =>
      have settled := @Moment.settled_of_ok env tx result [] work bth rest hr ht
      obtain ⟨named,flagged⟩ := newFlagged_applied hw (Moment.applied settled)
      show Rewritten (forceOutputs bth tx _).1.block.contractsDiff
      rw [contractsDiff_forceOutputs]
      let recorded := tx.blobs.toList.foldl
        (recordBlob bth tx.identity result.blobProofOutputIndices)
        ((settling env bth work tx rest).pushEvent bth .settled).block
      let entered := (settling env bth work tx rest).setBlock recorded
      have before : Rewritten entered.block.contractsDiff := by
        show Rewritten recorded.contractsDiff
        rw [contractsDiff_recordBlobs]
        exact h
      have listed : ∀ change ∈ result.contractChanges.toList,
          result.contractChanges[change.1]?=some change.2 :=
        fun change hm => Std.ExtTreeMap.mem_toList_iff_getElem?_eq_some.mp hm
      refine rewritten_foldl_applyContractChange (Maps.nodup_map_fst_toList _) ?_ ?_ before
      · exact fun change hm contract hc => (named _ _ (listed change hm) contract hc).1
      · exact fun change hm fresh contract hc =>
          flagged _ _ (listed change hm) fresh contract hc

theorem maintained_rewritten (env : Environment) :
    Maintained env (fun _ => True) fun _ work =>
      WellNamed work.store.contracts ∧ Rewritten work.block.contractsDiff where
  note past work block noted h := by
    refine ⟨h.1,?_⟩
    show Rewritten block.contractsDiff
    rw [contractsDiff_noted noted]
    exact h.2
  call := by
    intro past moment _ h
    refine ⟨(maintained_wellNamed env).call past moment trivial h.1,?_⟩
    obtain ⟨order,work,call⟩ := moment
    cases call with
    | settle bth => exact rewritten_settleTx h.1 h.2
    | sequence parentDpHash laneId tx =>
      unfold Moment.after
      dsimp only
      split <;> exact h.2
    | prove proofTxHash entry =>
      show Rewritten (handleBlobProof env proofTxHash work entry).1.block.contractsDiff
      rw [contractsDiff_noted (noted_handleBlobProof env proofTxHash work entry)]
      exact h.2
    | timeOut txHash =>
      show Rewritten (work.drop txHash).block.contractsDiff
      unfold Work.drop
      split <;> exact h.2
    | reschedule hashes => exact h.2

end Blocks

/-- The blocks that the node emits for a sequence of signed blocks. -/
def emitted (env : Environment) : NodeStateStore → List SignedBlock → List Block
  | _,[] => []
  | store,signedBlock::signedBlocks =>
      match handleSignedBlock env store signedBlock with
      | (next,.ok block) => block::emitted env next signedBlocks
      | (next,.error _) => emitted env next signedBlocks

section Emitted
variable {env : Environment}

theorem exists_of_mem_emitted {block : Block} {signedBlocks : List SignedBlock}
    {store : NodeStateStore} (h : block∈emitted env store signedBlocks) :
    ∃ before signedBlock,signedBlock∈signedBlocks ∧
      (handleSignedBlock env (handleSignedBlocks env store before) signedBlock).2=.ok block := by
  induction signedBlocks generalizing store with
  | nil => cases h
  | cons signedBlock signedBlocks ih =>
    unfold emitted at h
    have later : ∀ next,(handleSignedBlock env store signedBlock).1=next →
        block∈emitted env next signedBlocks → ∃ before found,found∈signedBlock::signedBlocks ∧
          (handleSignedBlock env (handleSignedBlocks env store before) found).2=.ok block := by
      intro next hn hm
      obtain ⟨before,found,hf,emits⟩ := ih hm
      refine ⟨signedBlock::before,found,List.mem_cons_of_mem _ hf,?_⟩
      rw [← hn] at emits
      exact emits
    rcases handled : handleSignedBlock env store signedBlock with ⟨next,_ | emits⟩
    · rw [handled] at h
      exact later next (congrArg Prod.fst handled) h
    · rw [handled] at h
      obtain rfl|h := List.mem_cons.mp h
      · exact ⟨[],signedBlock,List.mem_cons_self,congrArg Prod.snd handled⟩
      · exact later next (congrArg Prod.fst handled) h

/-- The blocks of a node note all fields of the contracts that they register. -/
theorem rewritten_of_mem_emitted {block : Block} {signedBlocks : List SignedBlock}
    (h : block∈emitted env NodeStateStore.default signedBlocks) :
    Rewritten block.toBlockUnderConstruction.contractsDiff := by
  obtain ⟨before,signedBlock,_,emits⟩ := exists_of_mem_emitted h
  have ho := inOrder_of_ok emits
  rw [handleSignedBlock_of_inOrder ho] at emits
  obtain rfl := Except.ok.inj emits
  have start : Rewritten (beginBlock env (handleSignedBlocks env NodeStateStore.default before)
      signedBlock).block.contractsDiff := by
    intro name registered hr
    simp [beginBlock,startBlock,BlockUnderConstruction.contractsDiff] at hr
  have expiring : Expiring fun _ work =>
      WellNamed work.store.contracts ∧ Rewritten work.block.contractsDiff :=
    ⟨fun _ _ hp => hp,fun _ _ _ hp => hp⟩
  exact (@Maintained.blockWork env _ [] (maintained_rewritten env) expiring [] _ signedBlock ho
    ⟨wellNamed_handleSignedBlocks env before,start⟩).2

end Emitted

end TruthSeeker.NodeState
