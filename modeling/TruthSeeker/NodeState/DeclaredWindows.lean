import TruthSeeker.NodeState.ContractNames

namespace TruthSeeker.NodeState

/-- The windows that the data of a blob to `hyle` ask for. -/
def actionWindows (data : BlobData) : List TimeoutWindow :=
  match BlobData.parse RegisterContractAction data with
  | some reg => reg.timeoutWindow.toList
  | none =>
  match BlobData.parse UpdateContractTimeoutWindowAction data with
  | some update => [update.timeoutWindow]
  | none => []

def effectWindows : OnchainEffect → List TimeoutWindow
  | .registerContract effect => effect.timeoutWindow.toList
  | .deleteContract _ => []

/-- The windows that the step asks for, by its action or the effects of its proof. -/
def BlobStep.declaredWindows (step : BlobStep) : List TimeoutWindow :=
  match step.proof with
  | none => actionWindows step.metadata.blob.data
  | some proof => proof.2.onchainEffects.flatMap effectWindows

def Moment.declaredWindows (env : Environment) (self : Moment) : List TimeoutWindow :=
  (self.steps env).flatMap BlobStep.declaredWindows

/-- All contracts have good windows. -/
def WindowsIn (good : TimeoutWindow → Prop) (contracts : Contracts) : Prop :=
  ∀ (name : ContractName) (contract : Contract),contracts[name]?=some contract →
    good contract.timeoutWindow

/-- All contracts among the changes have good windows. -/
def ChangedWindowsIn (good : TimeoutWindow → Prop) (changes : ContractChanges) : Prop :=
  ∀ (name : ContractName) (data : ModifiedContractData),changes[name]?=some data →
    ∀ contract,data.1=some contract → good contract.timeoutWindow

section Steps
variable {env : Environment} {contracts : Contracts} {changes next : ContractChanges}
  {good : TimeoutWindow → Prop}

theorem ChangedWindowsIn.insert (h : ChangedWindowsIn good changes) {name : ContractName}
    {data : ModifiedContractData} (hd : ∀ contract,data.1=some contract →
      good contract.timeoutWindow) : ChangedWindowsIn good (changes.insert name data) := by
  intro other found hf contract hc
  rw [Std.ExtTreeMap.getElem?_insert] at hf
  split_ifs at hf
  · obtain rfl := Option.some.inj hf
    exact hd contract hc
  · exact h other found hf contract hc

theorem good_getContract (hc : WindowsIn good contracts) (h : ChangedWindowsIn good changes)
    {name : ContractName} {contract : Contract}
    (hg : getContract contracts changes name=.ok contract) : good contract.timeoutWindow := by
  obtain ⟨data,hd,found⟩|⟨_,found⟩ := getContract_eq_ok hg
  · exact h name data hd contract found
  · exact hc name contract found

/-- The window of a registration, or the one that it falls back on. -/
theorem good_getD {window : Option TimeoutWindow} {fallback : TimeoutWindow}
    (hw : ∀ w ∈ window.toList,good w) (hf : good fallback) : good (window.getD fallback) := by
  cases window with
  | none => exact hf
  | some w => exact hw w List.mem_cons_self

theorem changedWindowsIn_foldlM_applyEffect {owner : Contract} {blob : Blob}
    {effects : List OnchainEffect} (ho : good owner.timeoutWindow)
    (hw : ∀ window ∈ effects.flatMap effectWindows,good window) (h : ChangedWindowsIn good changes)
    (he : effects.foldlM (applyEffect env owner blob) changes=.ok next) :
    ChangedWindowsIn good next := by
  induction effects generalizing changes with
  | nil =>
    obtain rfl := Except.ok.inj he
    exact h
  | cons effect effects ih =>
    rw [List.foldlM_cons] at he
    obtain ⟨mid,hm,hr⟩ := Outcome.bind_eq_ok.mp he
    rw [List.flatMap_cons] at hw
    refine ih (fun window hmem => hw window (List.mem_append_right _ hmem)) ?_ hr
    cases effect with
    | registerContract effect =>
      unfold applyEffect at hm
      obtain ⟨_,_,hm⟩ := Outcome.bind_eq_ok.mp hm
      split at hm
      · cases hm
      · obtain rfl := Except.ok.inj hm
        apply h.insert
        intro contract hc
        obtain rfl := Option.some.inj hc
        exact good_getD (fun window hmem => hw window (List.mem_append_left _ hmem)) ho
    | deleteContract name =>
      unfold applyEffect at hm
      obtain ⟨_,_,hm⟩ := Outcome.bind_eq_ok.mp hm
      obtain rfl := Except.ok.inj hm
      apply h.insert
      intro contract hc
      split at hc <;> cases hc

theorem changedWindowsIn_processProof (hc : WindowsIn good contracts)
    (h : ChangedWindowsIn good changes) {contractName : ContractName}
    {proof : ProgramId × HyleOutput} {blob : Blob}
    (hw : ∀ window ∈ proof.2.onchainEffects.flatMap effectWindows,good window)
    (hp : processProof env contracts changes contractName proof blob=.ok next) :
    ChangedWindowsIn good next := by
  obtain ⟨owner,mid,hg,_,_,_,he,rfl⟩ := processProof_eq_ok hp
  have own := good_getContract hc h hg
  have effects := changedWindowsIn_foldlM_applyEffect own hw h he
  apply effects.insert
  intro contract hm
  split at hm
  · next old fields sideEffects hf =>
    obtain rfl := Option.some.inj hm
    exact effects _ _ hf old rfl
  · cases hm
  · obtain rfl := Option.some.inj hm
    exact own

theorem changedWindowsIn_handleUpdateBlob (hc : WindowsIn good contracts)
    (h : ChangedWindowsIn good changes) {contractName : ContractName} {set : Contract → Contract}
    {mark : ModifiedContractFields → ModifiedContractFields} {effect : SideEffect}
    (hs : ∀ contract,good contract.timeoutWindow → good (set contract).timeoutWindow)
    (hu : HyleTld.handleUpdateBlob contracts changes contractName set mark effect=.ok next) :
    ChangedWindowsIn good next := by
  unfold HyleTld.handleUpdateBlob at hu
  split_ifs at hu
  obtain ⟨contract,hg,hu⟩ := Outcome.bind_eq_ok.mp hu
  obtain rfl := Except.ok.inj hu
  apply h.insert
  intro found hf
  split at hf
  · next old fields effects ho =>
    obtain ⟨copy,rfl,rfl⟩ := Option.map_eq_some_iff.mp hf
    exact hs copy (h _ _ ho copy rfl)
  · obtain rfl := Option.some.inj hf
    exact hs contract (good_getContract hc h hg)

theorem changedWindowsIn_handleBlobForHyleTld (hd : good TimeoutWindow.default)
    (hc : WindowsIn good contracts) (h : ChangedWindowsIn good changes) {blob : Blob}
    (hw : ∀ window ∈ actionWindows blob.data,good window)
    (hb : HyleTld.handleBlobForHyleTld env contracts changes blob=.ok next) :
    ChangedWindowsIn good next := by
  unfold actionWindows at hw
  unfold HyleTld.handleBlobForHyleTld at hb
  split at hb
  · next reg parsed =>
    rw [parsed] at hw
    unfold HyleTld.handleRegisterBlob at hb
    obtain ⟨_,_,hb⟩ := Outcome.bind_eq_ok.mp hb
    split_ifs at hb
    obtain rfl := Except.ok.inj hb
    apply h.insert
    intro contract hm
    obtain rfl := Option.some.inj hm
    exact good_getD hw hd
  · next parsed =>
    rw [parsed] at hw
    split at hb
    · unfold HyleTld.handleDeleteBlob at hb
      split_ifs at hb
      obtain rfl := Except.ok.inj hb
      apply h.insert
      intro contract hm
      cases hm
    · split at hb
      · unfold HyleTld.handleUpdateProgramIdBlob at hb
        refine changedWindowsIn_handleUpdateBlob hc h ?_ hb
        exact fun _ => id
      · split at hb
        · next update parsed =>
          rw [parsed] at hw
          unfold HyleTld.handleUpdateTimeoutWindowBlob at hb
          refine changedWindowsIn_handleUpdateBlob hc h ?_ hb
          exact fun _ _ => hw update.timeoutWindow List.mem_cons_self
        · split at hb
          · obtain rfl := Except.ok.inj hb
            exact h
          · cases hb

theorem windowsIn_foldl_changeContract {list : List (ContractName × ModifiedContractData)}
    (hc : WindowsIn good contracts)
    (hl : ∀ change ∈ list,∀ contract,change.2.1=some contract → good contract.timeoutWindow) :
    WindowsIn good (list.foldl changeContract contracts) := by
  induction list generalizing contracts with
  | nil => exact hc
  | cons change list ih =>
    refine ih ?_ fun c hm => hl c (List.mem_cons_of_mem _ hm)
    obtain ⟨contractName,data,fields,sideEffects⟩ := change
    intro name contract hf
    cases data with
    | none =>
      have gone : (contracts.erase contractName)[name]?=some contract := hf
      rw [Std.ExtTreeMap.getElem?_erase] at gone
      split_ifs at gone
      exact hc name contract gone
    | some new =>
      have put : (contracts.insert new.name new)[name]?=some contract := hf
      rw [Std.ExtTreeMap.getElem?_insert] at put
      split_ifs at put
      · obtain rfl := Option.some.inj put
        exact hl _ List.mem_cons_self new rfl
      · exact hc name contract put

/-- A call whose windows are good keeps the windows of all contracts good. -/
theorem windowsIn_after {moment : Moment} (hd : good TimeoutWindow.default)
    (hw : ∀ window ∈ moment.declaredWindows env,good window)
    (h : WindowsIn good moment.work.store.contracts) :
    WindowsIn good (moment.after env).store.contracts := by
  rw [contracts_after]
  cases settled : moment.settled env with
  | none => exact h
  | some entry =>
    obtain ⟨tx,result⟩ := entry
    have applied := Moment.applied settled
    have steps : ∀ step ∈ moment.steps env,ChangedWindowsIn good step.before →
        ChangedWindowsIn good step.after := by
      intro step hs before
      have declared : ∀ window ∈ step.declaredWindows,good window :=
        fun window hm => hw window (List.mem_flatMap.mpr ⟨step,hs,hm⟩)
      unfold BlobStep.declaredWindows at declared
      cases hp : step.proof with
      | none =>
        obtain ⟨_,_,handled⟩ := applied.of_none hs hp
        rw [hp] at declared
        exact changedWindowsIn_handleBlobForHyleTld hd h before declared handled
      | some proof =>
        obtain ⟨_,_,_,_,processed⟩ := applied.of_proof hs hp
        rw [hp] at declared
        exact changedWindowsIn_processProof h before declared processed
    have empty : ChangedWindowsIn good ∅ := by
      intro name data hf
      simp at hf
    have last := applied.keeps steps empty
    apply windowsIn_foldl_changeContract h
    intro change hm contract hc
    exact last _ _ (Std.ExtTreeMap.mem_toList_iff_getElem?_eq_some.mp hm) contract hc

end Steps

section Runs
variable {env : Environment}

theorem maintained_windowsIn (env : Environment) {good : TimeoutWindow → Prop}
    (hd : good TimeoutWindow.default) :
    Maintained env (fun _ => True) fun past work =>
      (∀ moment ∈ past,∀ window ∈ moment.declaredWindows env,good window) →
        WindowsIn good work.store.contracts where
  note _ _ _ _ h := h
  call := by
    intro past moment _ h declared
    have earlier := h fun m hm => declared m (List.mem_append_left _ hm)
    exact windowsIn_after hd (declared moment (by simp)) earlier

/-- If the default, the window of `hyle` and all windows that are declared in a run are good, the
contracts have good windows all the time. -/
theorem windowsIn_moments {good : TimeoutWindow → Prop} (hd : good TimeoutWindow.default)
    (hn : good .noTimeout) {signedBlocks : List SignedBlock}
    (h : ∀ moment ∈ moments env signedBlocks,∀ window ∈ moment.declaredWindows env,good window) :
    ∀ moment ∈ moments env signedBlocks,WindowsIn good moment.work.store.contracts := by
  intro moment hm
  obtain ⟨earlier,later,eq⟩ := List.append_of_mem hm
  have start : WindowsIn good NodeStateStore.default.contracts := by
    intro name contract hc
    have put : ((∅ : Contracts).insert "hyle" hyleContractDefinition)[name]?=some contract := hc
    rw [Std.ExtTreeMap.getElem?_insert] at put
    split_ifs at put
    · obtain rfl := Option.some.inj put
      exact hn
    · simp at put
  refine (maintained_windowsIn env hd).before ⟨fun _ _ h => h,fun _ _ _ h => h⟩
    (fun _ _ _ _ h => h) (fun _ _ => start) eq ?_
  intro past hp
  exact h past (eq ▸ List.mem_append_left _ hp)

end Runs

end TruthSeeker.NodeState
