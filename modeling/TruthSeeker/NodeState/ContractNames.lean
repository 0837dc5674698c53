import Mathlib.Data.List.TakeDrop
import Mathlib.Data.List.TakeWhile
import TruthSeeker.NodeState.ContractChanges

namespace TruthSeeker.NodeState

section Names

/-- The parts of a name between its dots. -/
def labels (name : ContractName) : List (List Char) := name.toList.splitOn '.'

/-- No label of the name is empty. -/
def ValidName (name : ContractName) : Prop := ∀ label ∈ labels name,label≠[]

/-- The name is that of the owner, or one label in front of it. -/
def OwnOrDirect (owner name : ContractName) : Prop :=
  name=owner ∨ ∃ label : String,label≠"" ∧ '.'∉label.toList ∧ name=label++"."++owner

instance (name : ContractName) : Decidable (ValidName name) :=
  inferInstanceAs (Decidable (∀ label ∈ labels name,label≠[]))

theorem validName_of_no_dot {name : ContractName} (hd : '.'∉name.toList) (hn : name≠"") :
    ValidName name := by
  have one : labels name=[name.toList] := List.splitOn_eq_singleton hd
  intro label hl
  rw [one,List.mem_singleton] at hl
  rw [hl]
  simpa using hn

/-- What `splitOnce` has found. -/
theorem splitOnce_eq_some {s before after : String} (h : splitOnce '.' s=some (before,after)) :
    '.'∉before.toList ∧ s=before++"."++after := by
  unfold splitOnce at h
  rw [List.span_eq_takeWhile_dropWhile] at h
  cases hd : s.toList.dropWhile (fun c => decide (c≠ '.')) with
  | nil =>
    simp only [hd] at h
    cases h
  | cons dot rest =>
    simp only [hd] at h
    obtain ⟨rfl,rfl⟩ := Prod.mk.inj (Option.some.inj h)
    have isDot : dot= '.' := by
      have first := List.head?_dropWhile_not (fun c => decide (c≠ '.')) s.toList
      rw [hd] at first
      simpa using first
    constructor
    · intro mem
      rw [String.toList_ofList] at mem
      have other := List.mem_takeWhile_imp mem
      simp at other
    · apply String.toList_injective
      have whole := List.takeWhile_append_dropWhile (p := fun c => decide (c≠ '.')) (l := s.toList)
      rw [hd,isDot] at whole
      simp only [String.toList_append,String.toList_ofList,List.append_assoc]
      exact whole.symm

theorem validName_sub {label owner : String} (hl : label≠"") (hd : '.'∉label.toList)
    (ho : ValidName owner) : ValidName (label++"."++owner) := by
  have split : labels (label++"."++owner)=label.toList::labels owner := by
    have chars : (label++"."++owner).toList=label.toList++ '.'::owner.toList := by
      simp [String.toList_append]
    unfold labels
    rw [chars,List.splitOn_append_cons_self,List.splitOn_eq_singleton hd,List.singleton_append]
  intro part hp
  rw [split] at hp
  obtain rfl|tail := List.mem_cons.mp hp
  · simpa using hl
  · exact ho part tail

/-- A name that an owner may register is valid if that of the owner is. -/
theorem validName_of_registration {owner name : ContractName} {u : Unit}
    (h : validateContractNameRegistration owner name=.ok u) (ho : ValidName owner) :
    ValidName name := by
  unfold validateContractNameRegistration at h
  split_ifs at h with tld own
  · obtain ⟨_,rfl|⟨nonempty,flat⟩⟩ := tld
    · exact (by decide : ValidName "hyle")
    · exact validName_of_no_dot flat nonempty
  · obtain ⟨_,rfl,_⟩ := own
    exact ho
  · cases hs : splitOnce '.' name with
    | none => simp [hs] at h
    | some parts =>
      obtain ⟨label,rest⟩ := parts
      simp only [hs] at h
      split_ifs at h with empty foreign
      push Not at empty foreign
      obtain ⟨flat,rfl⟩ := splitOnce_eq_some hs
      rw [foreign]
      exact validName_sub empty.1 flat ho

/-- An owner other than `hyle` may only register its own name and those directly below. -/
theorem ownOrDirect_of_registration {owner name : ContractName} {u : Unit}
    (h : validateContractNameRegistration owner name=.ok u) (ho : owner≠"hyle") :
    OwnOrDirect owner name := by
  unfold validateContractNameRegistration at h
  split_ifs at h with tld own
  · exact absurd tld.1 ho
  · exact Or.inl own.2.1.symm
  · cases hs : splitOnce '.' name with
    | none => simp [hs] at h
    | some parts =>
      obtain ⟨label,rest⟩ := parts
      simp only [hs] at h
      split_ifs at h with empty foreign
      push Not at empty foreign
      obtain ⟨flat,rfl⟩ := splitOnce_eq_some hs
      rw [foreign]
      exact Or.inr ⟨label,empty.1,flat,rfl⟩

end Names

section Changes
variable {env : Environment} {contracts : Contracts} {changes next : ContractChanges}

/-- Each contract stands under its own name, which is valid. -/
def WellNamed (contracts : Contracts) : Prop :=
  ∀ (name : ContractName) (contract : Contract),contracts[name]?=some contract →
    contract.name=name ∧ ValidName name

/-- So does each contract that the changes leave. -/
def WellNamedChanges (changes : ContractChanges) : Prop :=
  ∀ (name : ContractName) (data : ModifiedContractData),changes[name]?=some data →
    ∀ contract,data.1=some contract → contract.name=name ∧ ValidName name

theorem WellNamedChanges.empty : WellNamedChanges ∅ := by
  intro name data h
  simp at h

theorem WellNamedChanges.insert (h : WellNamedChanges changes) {name : ContractName}
    {data : ModifiedContractData}
    (hd : ∀ contract,data.1=some contract → contract.name=name ∧ ValidName name) :
    WellNamedChanges (changes.insert name data) := by
  intro other found hf contract hc
  rw [Std.ExtTreeMap.getElem?_insert] at hf
  split_ifs at hf with heq
  · obtain rfl := Std.LawfulEqOrd.eq_of_compare heq
    obtain rfl := Option.some.inj hf
    exact hd contract hc
  · exact h other found hf contract hc

theorem WellNamedChanges.changesNamed (h : WellNamedChanges changes) :
    ChangesNamed changes.toList := by
  intro change hm contract hc
  exact (h _ _ (Std.ExtTreeMap.mem_toList_iff_getElem?_eq_some.mp hm) contract hc).1

theorem getContract_eq_ok {name : ContractName} {contract : Contract}
    (h : getContract contracts changes name=.ok contract) :
    (∃ data,changes[name]?=some data ∧ data.1=some contract) ∨
      changes[name]?=none ∧ contracts[name]?=some contract := by
  unfold getContract at h
  cases hc : changes[name]? with
  | none =>
    simp only [hc] at h
    cases hf : contracts[name]? with
    | none => simp [hf] at h
    | some found =>
      simp only [hf] at h
      exact Or.inr ⟨rfl,congrArg some (Except.ok.inj h)⟩
  | some data =>
    obtain ⟨copy,fields,effects⟩ := data
    simp only [hc] at h
    cases copy with
    | none => simp at h
    | some found =>
      simp only at h
      exact Or.inl ⟨_,rfl,congrArg some (Except.ok.inj h)⟩

theorem wellNamed_getContract (hc : WellNamed contracts) (h : WellNamedChanges changes)
    {name : ContractName} {contract : Contract}
    (hg : getContract contracts changes name=.ok contract) :
    contract.name=name ∧ ValidName name := by
  obtain ⟨data,hd,found⟩|⟨_,found⟩ := getContract_eq_ok hg
  · exact h name data hd contract found
  · exact hc name contract found

theorem validateName_of_metadata {owner name : ContractName} {verifier : Verifier}
    {programId : ProgramId} {stateCommitment : StateCommitment} {u : Unit}
    (h : validateContractRegistrationMetadata env owner name verifier programId
      stateCommitment=.ok u) : validateContractNameRegistration owner name=.ok () := by
  unfold validateContractRegistrationMetadata at h
  cases hv : validateContractNameRegistration owner name with
  | error e => simp [hv,bind,Except.bind] at h
  | ok u => rfl

/-- The name that an effect registers or deletes. -/
def effectName : OnchainEffect → ContractName
  | .registerContract effect => effect.contractName
  | .deleteContract contractName => contractName

/-- What an effect adds to the changes. -/
theorem applyEffect_eq_ok {contract : Contract} {blob : Blob} {effect : OnchainEffect}
    (h : applyEffect env contract blob changes effect=.ok next) :
    ∃ data : ModifiedContractData,next=changes.insert (effectName effect) data ∧
      validateContractNameRegistration contract.name (effectName effect)=.ok () ∧
      ∀ c,data.1=some c → c.name=effectName effect := by
  cases effect with
  | registerContract effect =>
    unfold applyEffect at h
    simp only [bind,Except.bind] at h
    split at h
    · cases h
    · next hv =>
      split at h
      · cases h
      · obtain rfl := Except.ok.inj h
        refine ⟨_,rfl,validateName_of_metadata hv,?_⟩
        intro c hc
        rw [← Option.some.inj hc]
        rfl
  | deleteContract name =>
    unfold applyEffect at h
    simp only [bind,Except.bind] at h
    split at h
    · cases h
    · next hv =>
      obtain rfl := Except.ok.inj h
      refine ⟨_,rfl,hv,?_⟩
      intro c hc
      split at hc <;> cases hc

theorem wellNamed_applyEffect {contract : Contract} {blob : Blob} {effect : OnchainEffect}
    (hv : ValidName contract.name) (h : WellNamedChanges changes)
    (he : applyEffect env contract blob changes effect=.ok next) : WellNamedChanges next := by
  obtain ⟨data,rfl,valid,named⟩ := applyEffect_eq_ok he
  exact h.insert fun c hc => ⟨named c hc,validName_of_registration valid hv⟩

theorem wellNamed_foldlM_applyEffect {contract : Contract} {blob : Blob}
    {effects : List OnchainEffect} (hv : ValidName contract.name) (h : WellNamedChanges changes)
    (he : effects.foldlM (applyEffect env contract blob) changes=.ok next) :
    WellNamedChanges next := by
  induction effects generalizing changes with
  | nil =>
    obtain rfl := Except.ok.inj he
    exact h
  | cons effect effects ih =>
    rw [List.foldlM_cons] at he
    obtain ⟨mid,hm,hr⟩ := Outcome.bind_eq_ok.mp he
    exact ih (wellNamed_applyEffect hv h hm) hr

theorem validateName_of_mem {contract : Contract} {blob : Blob} {effects : List OnchainEffect}
    (he : effects.foldlM (applyEffect env contract blob) changes=.ok next)
    {effect : OnchainEffect} (hm : effect∈effects) :
    validateContractNameRegistration contract.name (effectName effect)=.ok () := by
  induction effects generalizing changes with
  | nil => simp at hm
  | cons first effects ih =>
    rw [List.foldlM_cons] at he
    obtain ⟨mid,hf,hr⟩ := Outcome.bind_eq_ok.mp he
    obtain rfl|tail := List.mem_cons.mp hm
    · obtain ⟨_,_,valid,_⟩ := applyEffect_eq_ok hf
      exact valid
    · exact ih hr tail

theorem wellNamed_applyState {contract : Contract} {nextState : StateCommitment}
    (hv : ValidName contract.name) (h : WellNamedChanges changes) :
    WellNamedChanges (applyState contract nextState changes) := by
  apply h.insert
  intro c hc
  split at hc
  · next old fields effects hf =>
    obtain rfl := Option.some.inj hc
    exact h _ _ hf old rfl
  · cases hc
  · obtain rfl := Option.some.inj hc
    exact ⟨rfl,hv⟩

/-- What a proof that settles has gone through. -/
theorem processProof_eq_ok {contractName : ContractName} {proof : ProgramId × HyleOutput}
    {blob : Blob}
    (h : processProof env contracts changes contractName proof blob=.ok next) :
    ∃ contract mid,getContract contracts changes contractName=.ok contract ∧
      proof.2.initialState=contract.state ∧ proof.1=contract.programId ∧
      proof.2.stateReads.forM (checkStateRead env contracts changes)=.ok () ∧
      proof.2.onchainEffects.foldlM (applyEffect env contract blob) changes=.ok mid ∧
      next=applyState contract proof.2.nextState mid := by
  unfold processProof at h
  obtain ⟨_,_,h⟩ := Outcome.bind_eq_ok.mp h
  obtain ⟨contract,hg,h⟩ := Outcome.bind_eq_ok.mp h
  split_ifs at h with hs hp
  push Not at hs hp
  obtain ⟨_,hr,h⟩ := Outcome.bind_eq_ok.mp h
  obtain ⟨mid,he,h⟩ := Outcome.bind_eq_ok.mp h
  exact ⟨contract,mid,hg,hs,hp,hr,he,(Except.ok.inj h).symm⟩

theorem wellNamed_processProof (hc : WellNamed contracts) (h : WellNamedChanges changes)
    {contractName : ContractName} {proof : ProgramId × HyleOutput} {blob : Blob}
    (hp : processProof env contracts changes contractName proof blob=.ok next) :
    WellNamedChanges next := by
  obtain ⟨contract,mid,hg,_,_,_,he,rfl⟩ := processProof_eq_ok hp
  obtain ⟨same,valid⟩ := wellNamed_getContract hc h hg
  rw [← same] at valid
  exact wellNamed_applyState valid (wellNamed_foldlM_applyEffect valid h he)

theorem wellNamed_handleRegisterBlob {reg : RegisterContractAction} (h : WellNamedChanges changes)
    (hr : HyleTld.handleRegisterBlob env contracts changes reg=.ok next) :
    WellNamedChanges next := by
  unfold HyleTld.handleRegisterBlob at hr
  obtain ⟨_,hv,hr⟩ := Outcome.bind_eq_ok.mp hr
  split_ifs at hr
  obtain rfl := Except.ok.inj hr
  apply h.insert
  intro c hc
  obtain rfl := Option.some.inj hc
  exact ⟨rfl,validName_of_registration (validateName_of_metadata hv) (by decide)⟩

theorem wellNamed_handleDeleteBlob {delete : DeleteContractAction} (h : WellNamedChanges changes)
    (hd : HyleTld.handleDeleteBlob contracts changes delete=.ok next) : WellNamedChanges next := by
  unfold HyleTld.handleDeleteBlob at hd
  split_ifs at hd
  obtain rfl := Except.ok.inj hd
  apply h.insert
  intro c hc
  cases hc

theorem wellNamed_handleUpdateBlob (hc : WellNamed contracts) (h : WellNamedChanges changes)
    {contractName : ContractName} {set : Contract → Contract}
    {mark : ModifiedContractFields → ModifiedContractFields} {effect : SideEffect}
    (hs : ∀ contract,(set contract).name=contract.name)
    (hu : HyleTld.handleUpdateBlob contracts changes contractName set mark effect=.ok next) :
    WellNamedChanges next := by
  unfold HyleTld.handleUpdateBlob at hu
  split_ifs at hu
  obtain ⟨contract,hg,hu⟩ := Outcome.bind_eq_ok.mp hu
  obtain rfl := Except.ok.inj hu
  apply h.insert
  intro c hc'
  split at hc'
  · next old fields effects hf =>
    obtain ⟨found,rfl,rfl⟩ := Option.map_eq_some_iff.mp hc'
    rw [hs]
    exact h _ _ hf found rfl
  · obtain rfl := Option.some.inj hc'
    rw [hs]
    exact wellNamed_getContract hc h hg

theorem wellNamed_handleBlobForHyleTld (hc : WellNamed contracts) (h : WellNamedChanges changes)
    {blob : Blob} (hb : HyleTld.handleBlobForHyleTld env contracts changes blob=.ok next) :
    WellNamedChanges next := by
  unfold HyleTld.handleBlobForHyleTld at hb
  split at hb
  · exact wellNamed_handleRegisterBlob h hb
  · split at hb
    · exact wellNamed_handleDeleteBlob h hb
    · split at hb
      · unfold HyleTld.handleUpdateProgramIdBlob at hb
        refine wellNamed_handleUpdateBlob hc h ?_ hb
        exact fun _ => rfl
      · split at hb
        · unfold HyleTld.handleUpdateTimeoutWindowBlob at hb
          refine wellNamed_handleUpdateBlob hc h ?_ hb
          exact fun _ => rfl
        · split at hb
          · obtain rfl := Except.ok.inj hb
            exact h
          · cases hb

theorem wellNamed_applied (hc : WellNamed contracts) {blobs : List UnsettledBlobMetadata}
    {steps : List BlobStep} (h : Applied env contracts ∅ blobs steps changes) :
    WellNamedChanges changes ∧
      ∀ step ∈ steps,WellNamedChanges step.before ∧ WellNamedChanges step.after :=
  h.induct (fun _ _ _ _ _ hb hw => wellNamed_handleBlobForHyleTld hc hw hb)
    (fun _ _ _ _ _ _ _ hp hw => wellNamed_processProof hc hw hp) WellNamedChanges.empty

theorem wellNamed_foldl_changeContract {list : List (ContractName × ModifiedContractData)}
    (hc : WellNamed contracts)
    (hl : ∀ change ∈ list,∀ contract,change.2.1=some contract → ValidName contract.name) :
    WellNamed (list.foldl changeContract contracts) := by
  induction list generalizing contracts with
  | nil => exact hc
  | cons change list ih =>
    have tail := fun c hm => hl c (List.mem_cons_of_mem _ hm)
    refine ih ?_ tail
    obtain ⟨contractName,data,fields,sideEffects⟩ := change
    intro name contract hf
    cases data with
    | none =>
      have gone : (contracts.erase contractName)[name]?=some contract := hf
      rw [Std.ExtTreeMap.getElem?_erase] at gone
      split_ifs at gone
      exact hc name contract gone
    | some new =>
      have put : (contracts.insert new.name new)[name]?=some contract := hf
      rw [Std.ExtTreeMap.getElem?_insert] at put
      split_ifs at put with heq
      · obtain rfl := Std.LawfulEqOrd.eq_of_compare heq
        obtain rfl := Option.some.inj put
        exact ⟨rfl,hl _ List.mem_cons_self new rfl⟩
      · exact hc name contract put

end Changes

section Runs

theorem wellNamed_default : WellNamed NodeStateStore.default.contracts := by
  intro name contract h
  have put : ((∅ : Contracts).insert "hyle" hyleContractDefinition)[name]?=some contract := h
  rw [Std.ExtTreeMap.getElem?_insert] at put
  split_ifs at put with heq
  · obtain rfl := Std.LawfulEqOrd.eq_of_compare heq
    obtain rfl := Option.some.inj put
    exact ⟨rfl,by decide⟩
  · simp at put

theorem maintained_wellNamed (env : Environment) :
    Maintained env (fun _ => True) fun _ work => WellNamed work.store.contracts where
  note _ _ _ _ h := h
  call := by
    intro _ moment _ h
    rw [contracts_after]
    split
    · exact h
    · next tx result hs =>
      have named := (wellNamed_applied h (Moment.applied hs)).1
      apply wellNamed_foldl_changeContract h
      intro change hm contract hc
      obtain ⟨same,valid⟩ :=
        named _ _ (Std.ExtTreeMap.mem_toList_iff_getElem?_eq_some.mp hm) contract hc
      rwa [same]

theorem wellNamed_moments {env : Environment} {signedBlocks : List SignedBlock} :
    ∀ moment ∈ moments env signedBlocks,WellNamed moment.work.store.contracts := by
  intro moment hm
  obtain ⟨earlier,later,eq⟩ := List.append_of_mem hm
  exact (maintained_wellNamed env).before ⟨fun _ _ h => h,fun _ _ _ h => h⟩ (fun _ _ _ _ h => h)
    (fun _ => wellNamed_default) eq

theorem wellNamed_handleSignedBlocks (env : Environment) (signedBlocks : List SignedBlock) :
    WellNamed (handleSignedBlocks env NodeStateStore.default signedBlocks).contracts := by
  obtain ⟨_,h⟩ := (maintained_wellNamed env).run ⟨fun _ _ h => h,fun _ _ _ h => h⟩ (fun _ _ _ _ h => h)
    (fun _ => wellNamed_default) signedBlocks
  exact h

/-- In every run, each contract stands under its own name, all names are valid, and the proofs
for a contract register and delete only its own name and those directly below. -/
theorem contractNamespaces (env : Environment) (signedBlocks : List SignedBlock) :
    WellNamed (handleSignedBlocks env NodeStateStore.default signedBlocks).contracts ∧
    ∀ moment ∈ moments env signedBlocks,WellNamed moment.work.store.contracts ∧
      ∀ step ∈ moment.steps env,∀ proof,step.proof=some proof →
        ∀ effect ∈ proof.2.onchainEffects,
          OwnOrDirect step.metadata.blob.contractName (effectName effect) := by
  refine ⟨wellNamed_handleSignedBlocks env signedBlocks,?_⟩
  intro moment hm
  have named := wellNamed_moments moment hm
  refine ⟨named,?_⟩
  intro step hs proof hp effect he
  obtain ⟨tx,result,settled⟩ := Moment.exists_settled hs
  have applied := Moment.applied settled
  obtain ⟨_,other,_,_,processed⟩ := applied.of_proof hs hp
  have before := ((wellNamed_applied named applied).2 step hs).1
  obtain ⟨contract,_,hg,_,_,_,effects,_⟩ := processProof_eq_ok processed
  have owner := (wellNamed_getContract named before hg).1
  have valid := validateName_of_mem effects he
  rw [owner] at valid
  exact ownOrDirect_of_registration valid other

end Runs

end TruthSeeker.NodeState
