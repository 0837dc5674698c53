import TruthSeeker.NodeState.ContractNames

namespace TruthSeeker.NodeState

/-- What the settlement of a transaction as successful makes of one contract. -/
inductive ContractEvent where
  /-- A proof for a blob of the contract. Its effects on the contract itself come before its
  next state. -/
  | proved (proof : ProgramId × HyleOutput) (effects : List (Option Contract))
  | registered (owner : ContractName) (contract : Contract)
  | deleted (owner : ContractName)
  | updatedProgramId (programId : ProgramId)
  | updatedTimeoutWindow (timeoutWindow : TimeoutWindow)
  deriving DecidableEq

namespace ContractEvent

/-- The contract after an event, none if there is no such contract. -/
def apply (contract : Option Contract) : ContractEvent → Option Contract
  | .proved proof effects =>
      (effects.foldl (fun _ effect => effect) contract).map fun contract =>
        { contract with state := proof.2.nextState }
  | .registered _ contract => some contract
  | .deleted _ => none
  | .updatedProgramId programId =>
      contract.map fun contract => { contract with programId := programId }
  | .updatedTimeoutWindow timeoutWindow =>
      contract.map fun contract => { contract with timeoutWindow := timeoutWindow }

/-- A proof starts from the state of the contract and is one of its program. Only `hyle`, the
contract itself and the one above it register or delete it, and `hyle` takes no name twice
but its own. -/
def Enabled (name : ContractName) (contract : Option Contract) : ContractEvent → Prop
  | .proved proof _ => ∃ current,contract=some current ∧ proof.2.success=true ∧
      proof.2.initialState=current.state ∧ proof.1=current.programId
  | .registered owner fresh => fresh.name=name ∧
      if owner="hyle" then name="hyle" ∨ contract=none else OwnOrDirect owner name
  | .deleted owner => if owner="hyle" then name≠"hyle" else OwnOrDirect owner name
  | .updatedProgramId _ => name≠"hyle" ∧ contract≠none
  | .updatedTimeoutWindow _ => name≠"hyle" ∧ contract≠none

end ContractEvent

/-- What an effect makes of the contract of a name. -/
def effectOn (name : ContractName) (timeoutWindow : TimeoutWindow) :
    OnchainEffect → Option (Option Contract)
  | .registerContract effect =>
      if effect.contractName=name then
        some (some ⟨effect.contractName,effect.programId,effect.stateCommitment,effect.verifier,
          effect.timeoutWindow.getD timeoutWindow⟩)
      else none
  | .deleteContract contractName => if contractName=name then some none else none

/-- What a blob for `hyle` makes of the contract of a name. -/
def tldEvents (name : ContractName) (data : BlobData) : List ContractEvent :=
  match BlobData.parse RegisterContractAction data with
  | some reg =>
      if reg.contractName=name then
        [.registered "hyle" ⟨reg.contractName,reg.programId,reg.stateCommitment,reg.verifier,
          reg.timeoutWindow.getD TimeoutWindow.default⟩]
      else []
  | none =>
  match BlobData.parse DeleteContractAction data with
  | some delete => if delete.contractName=name then [.deleted "hyle"] else []
  | none =>
  match BlobData.parse UpdateContractProgramIdAction data with
  | some update =>
      if update.contractName=name then [.updatedProgramId update.programId] else []
  | none =>
  match BlobData.parse UpdateContractTimeoutWindowAction data with
  | some update =>
      if update.contractName=name then [.updatedTimeoutWindow update.timeoutWindow] else []
  | none => []

/-- A contract that gives no window takes that of its owner. -/
def BlobStep.events (contracts : Contracts) (name : ContractName) (step : BlobStep) :
    List ContractEvent :=
  let owner := step.metadata.blob.contractName
  match step.proof with
  | some proof =>
      let timeoutWindow := ((getContract contracts step.before owner).toOption.map
        Contract.timeoutWindow).getD TimeoutWindow.default
      let effects := proof.2.onchainEffects.filterMap (effectOn name timeoutWindow)
      if owner=name then [.proved proof effects]
      else effects.map fun
        | some contract => .registered owner contract
        | none => .deleted owner
  | none => tldEvents name step.metadata.blob.data

def Moment.events (env : Environment) (name : ContractName) (moment : Moment) :
    List ContractEvent :=
  (moment.steps env).flatMap (BlobStep.events moment.work.store.contracts name)

/-- Everything that a run makes of one contract. -/
def contractHistory (env : Environment) (name : ContractName) (signedBlocks : List SignedBlock) :
    List ContractEvent :=
  (moments env signedBlocks).flatMap (Moment.events env name)

section Lookup
variable {contracts : Contracts} {changes next : ContractChanges} {name : ContractName}

/-- The contract as the changes leave it. -/
def current (contracts : Contracts) (changes : ContractChanges) (name : ContractName) :
    Option Contract :=
  changes[name]?.elim contracts[name]? Prod.fst

theorem current_insert (key : ContractName) (data : ModifiedContractData) :
    current contracts (changes.insert key data) name=
      if key=name then data.1 else current contracts changes name := by
  unfold current
  rw [Std.ExtTreeMap.getElem?_insert]
  simp only [Std.LawfulEqOrd.compare_eq_iff_eq]
  split_ifs
  · rfl
  · rfl

theorem current_of_getContract {contract : Contract}
    (h : getContract contracts changes name=.ok contract) :
    current contracts changes name=some contract := by
  unfold current
  obtain ⟨data,hd,found⟩|⟨absent,found⟩ := getContract_eq_ok h
  · rw [hd]
    exact found
  · rw [absent]
    exact found

end Lookup

section Effects
variable {env : Environment} {contracts : Contracts} {changes next : ContractChanges}
  {name : ContractName} {contract : Contract} {blob : Blob}

theorem current_applyEffect {effect : OnchainEffect}
    (h : applyEffect env contract blob changes effect=.ok next) :
    current contracts next name=
      (effectOn name contract.timeoutWindow effect).getD (current contracts changes name) := by
  cases effect with
  | registerContract effect =>
    unfold applyEffect at h
    simp only [bind,Except.bind] at h
    split at h
    · cases h
    · split at h
      · cases h
      · obtain rfl := Except.ok.inj h
        rw [current_insert,effectOn]
        split_ifs
        · rfl
        · rfl
  | deleteContract contractName =>
    unfold applyEffect at h
    simp only [bind,Except.bind] at h
    split at h
    · cases h
    · obtain rfl := Except.ok.inj h
      rw [current_insert,effectOn]
      split_ifs
      · split
        · rfl
        · rfl
      · rfl

/-- The last effect on the contract decides. -/
theorem current_foldlM_applyEffect {effects : List OnchainEffect}
    (h : effects.foldlM (applyEffect env contract blob) changes=.ok next) :
    current contracts next name=
      (effects.filterMap (effectOn name contract.timeoutWindow)).foldl
        (fun _ effect => effect) (current contracts changes name) := by
  induction effects generalizing changes with
  | nil =>
    obtain rfl := Except.ok.inj h
    rfl
  | cons effect effects ih =>
    rw [List.foldlM_cons] at h
    obtain ⟨mid,hm,hr⟩ := Outcome.bind_eq_ok.mp h
    rw [ih hr,current_applyEffect hm,List.filterMap_cons]
    cases effectOn name contract.timeoutWindow effect with
    | none => rfl
    | some fresh => rfl

/-- Effects only add to the changes. -/
theorem absent_of_foldlM_applyEffect {effects : List OnchainEffect}
    (h : effects.foldlM (applyEffect env contract blob) changes=.ok next)
    (absent : next[name]?=none) : changes[name]?=none := by
  induction effects generalizing changes with
  | nil =>
    obtain rfl := Except.ok.inj h
    exact absent
  | cons effect effects ih =>
    rw [List.foldlM_cons] at h
    obtain ⟨mid,hm,hr⟩ := Outcome.bind_eq_ok.mp h
    have before := ih hr
    obtain ⟨data,rfl,_⟩ := applyEffect_eq_ok hm
    rw [Std.ExtTreeMap.getElem?_insert] at before
    split_ifs at before
    exact before

theorem current_applyState {nextState : StateCommitment}
    (h : contract.name=name → next[name]?=none → contracts[name]?=some contract) :
    current contracts (applyState contract nextState next) name=
      if contract.name=name then
        (current contracts next name).map fun c => { c with state := nextState }
      else current contracts next name := by
  unfold applyState
  rw [current_insert]
  split_ifs with own
  · subst own
    unfold current
    split
    · next old fields effects hf => rw [hf]; rfl
    · next fields effects hf => rw [hf]; rfl
    · next hf => rw [hf,Option.elim_none,h rfl hf]; rfl
  · rfl

/-- What a proof that settles makes of a contract. -/
theorem current_processProof (name : ContractName) (hc : WellNamed contracts)
    (hw : WellNamedChanges changes) {owner : ContractName} {proof : ProgramId × HyleOutput}
    (h : processProof env contracts changes owner proof blob=.ok next) :
    ∃ contract,current contracts changes owner=some contract ∧
      getContract contracts changes owner=.ok contract ∧ contract.name=owner ∧
      proof.2.initialState=contract.state ∧ proof.1=contract.programId ∧
      current contracts next name=
        let effects := proof.2.onchainEffects.filterMap (effectOn name contract.timeoutWindow)
        let after := effects.foldl (fun _ effect => effect) (current contracts changes name)
        if owner=name then after.map fun c => { c with state := proof.2.nextState }
        else after := by
  obtain ⟨contract,mid,hg,hs,hp,_,he,rfl⟩ := processProof_eq_ok h
  have named := (wellNamed_getContract hc hw hg).1
  have held := current_of_getContract hg
  refine ⟨contract,held,hg,named,hs,hp,?_⟩
  rw [current_applyState,current_foldlM_applyEffect he,named]
  intro own absent
  rw [named] at own
  subst own
  have before := absent_of_foldlM_applyEffect he absent
  unfold current at held
  rw [before] at held
  exact held

end Effects

section Events
variable {env : Environment} {contracts : Contracts} {changes next last : ContractChanges}
  {name : ContractName}

/-- The events are legal and lead from one contract to the other. -/
def Explains (name : ContractName) (before : Option Contract) (events : List ContractEvent)
    (after : Option Contract) : Prop :=
  events.foldl ContractEvent.apply before=after ∧
    Trace.Legal (ContractEvent.Enabled name) ContractEvent.apply before events

namespace Explains

variable {before mid after : Option Contract} {events others : List ContractEvent}

theorem nil (contract : Option Contract) : Explains name contract [] contract :=
  ⟨rfl,trivial⟩

theorem single {event : ContractEvent} (h : event.Enabled name before) :
    Explains name before [event] (event.apply before) :=
  ⟨rfl,h,trivial⟩

theorem append (h : Explains name before events mid) (hr : Explains name mid others after) :
    Explains name before (events++others) after := by
  obtain ⟨rfl,legal⟩ := h
  obtain ⟨rfl,rest⟩ := hr
  exact ⟨List.foldl_append,Trace.legal_append.mpr ⟨legal,rest⟩⟩

end Explains

/-- The effects of another contract's proof. -/
theorem explains_effects {owner : ContractName} (before : Option Contract)
    {effects : List (Option Contract)} (ho : owner≠"hyle")
    (valid : effects≠[] → OwnOrDirect owner name)
    (named : ∀ contract,some contract∈effects → contract.name=name) :
    Explains name before
      (effects.map fun
        | some contract => .registered owner contract
        | none => .deleted owner)
      (effects.foldl (fun _ effect => effect) before) := by
  induction effects generalizing before with
  | nil => exact .nil before
  | cons effect effects ih =>
    have direct : OwnOrDirect owner name := valid (List.cons_ne_nil effect effects)
    have rest := ih effect (fun _ => direct)
      fun contract hm => named contract (List.mem_cons_of_mem _ hm)
    cases effect with
    | none =>
      have first : Explains name before [.deleted owner] none := .single (by
        show if owner="hyle" then _ else _
        rw [if_neg ho]
        exact direct)
      exact first.append rest
    | some contract =>
      have first : Explains name before [.registered owner contract] (some contract) :=
        .single (by
          refine ⟨named contract List.mem_cons_self,?_⟩
          rw [if_neg ho]
          exact direct)
      exact first.append rest

theorem effectOn_eq_some {timeoutWindow : TimeoutWindow} {effect : OnchainEffect}
    {fresh : Option Contract} (h : effectOn name timeoutWindow effect=some fresh) :
    effectName effect=name ∧ ∀ contract,fresh=some contract → contract.name=name := by
  cases effect with
  | registerContract effect =>
    simp only [effectOn] at h
    split_ifs at h with same
    refine ⟨same,?_⟩
    intro contract hf
    rw [hf] at h
    rw [← Option.some.inj (Option.some.inj h)]
    exact same
  | deleteContract contractName =>
    simp only [effectOn] at h
    split_ifs at h with same
    refine ⟨same,?_⟩
    intro contract hf
    rw [hf] at h
    cases Option.some.inj h

/-- A proof that settles, for a blob of the contract or of another one. -/
theorem explains_processProof (hc : WellNamed contracts) (hw : WellNamedChanges changes)
    {metadata : UnsettledBlobMetadata} {proof : ProgramId × HyleOutput}
    (other : metadata.blob.contractName≠"hyle") (success : proof.2.success=true)
    (h : processProof env contracts changes metadata.blob.contractName proof metadata.blob=
      .ok next) :
    Explains name (current contracts changes name)
      (BlobStep.events contracts name ⟨metadata,some proof,changes,next⟩)
      (current contracts next name) := by
  obtain ⟨contract,held,hg,named,hs,hp,after⟩ := current_processProof name hc hw h
  have window : ((getContract contracts changes metadata.blob.contractName).toOption.map
      Contract.timeoutWindow).getD TimeoutWindow.default=contract.timeoutWindow := by
    rw [hg]
    rfl
  simp only at after
  simp only [BlobStep.events,window]
  rw [after]
  split_ifs with own
  · refine .single ⟨contract,?_,success,hs,hp⟩
    rw [← own]
    exact held
  · obtain ⟨found,_,hf,_,_,_,effects,_⟩ := processProof_eq_ok h
    rw [hg] at hf
    obtain rfl := Except.ok.inj hf
    refine explains_effects _ other ?_ ?_
    · intro some
      obtain ⟨fresh,hm⟩ := List.exists_mem_of_ne_nil _ some
      obtain ⟨effect,he,hon⟩ := List.mem_filterMap.mp hm
      have valid := validateName_of_mem effects he
      rw [named,(effectOn_eq_some hon).1] at valid
      exact ownOrDirect_of_registration valid other
    · intro fresh hm
      obtain ⟨effect,_,hon⟩ := List.mem_filterMap.mp hm
      exact (effectOn_eq_some hon).2 fresh rfl

theorem current_of_not_contains {key : ContractName} (hc : contracts.contains key=false)
    (hn : changes.contains key=false) : current contracts changes key=none := by
  have absent : contracts[key]?=none := Std.ExtTreeMap.getElem?_eq_none_of_contains_eq_false hc
  have unchanged : changes[key]?=none := Std.ExtTreeMap.getElem?_eq_none_of_contains_eq_false hn
  unfold current
  rw [unchanged]
  exact absent

theorem explains_handleRegisterBlob {reg : RegisterContractAction}
    (h : HyleTld.handleRegisterBlob env contracts changes reg=.ok next) :
    Explains name (current contracts changes name)
      (if reg.contractName=name then
        [.registered "hyle" ⟨reg.contractName,reg.programId,reg.stateCommitment,reg.verifier,
          reg.timeoutWindow.getD TimeoutWindow.default⟩]
      else [])
      (current contracts next name) := by
  unfold HyleTld.handleRegisterBlob at h
  obtain ⟨_,_,h⟩ := Outcome.bind_eq_ok.mp h
  split_ifs at h with taken
  obtain rfl := Except.ok.inj h
  rw [current_insert]
  split_ifs with same
  · subst same
    refine .single ⟨rfl,?_⟩
    rw [if_pos rfl]
    by_cases tld : reg.contractName="hyle"
    · exact Or.inl tld
    · right
      simp only [not_or,not_and,Bool.not_eq_true] at taken
      exact current_of_not_contains (taken.1 tld) taken.2
  · exact .nil _

theorem explains_handleDeleteBlob {delete : DeleteContractAction}
    (h : HyleTld.handleDeleteBlob contracts changes delete=.ok next) :
    Explains name (current contracts changes name)
      (if delete.contractName=name then [.deleted "hyle"] else [])
      (current contracts next name) := by
  unfold HyleTld.handleDeleteBlob at h
  split_ifs at h with tld
  obtain rfl := Except.ok.inj h
  rw [current_insert]
  split_ifs with same
  · refine .single ?_
    show if ("hyle" : ContractName)="hyle" then name≠"hyle" else OwnOrDirect "hyle" name
    rw [if_pos rfl,← same]
    exact tld
  · exact .nil _

theorem explains_handleUpdateBlob {contractName : ContractName} {set : Contract → Contract}
    {mark : ModifiedContractFields → ModifiedContractFields} {effect : SideEffect}
    (event : ContractEvent) (applied : ∀ contract,event.apply (some contract)=some (set contract))
    (enabled : name≠"hyle" → ∀ contract,event.Enabled name (some contract))
    (h : HyleTld.handleUpdateBlob contracts changes contractName set mark effect=.ok next) :
    Explains name (current contracts changes name) (if contractName=name then [event] else [])
      (current contracts next name) := by
  unfold HyleTld.handleUpdateBlob at h
  split_ifs at h with tld
  obtain ⟨contract,hg,h⟩ := Outcome.bind_eq_ok.mp h
  obtain rfl := Except.ok.inj h
  have held := current_of_getContract hg
  rw [current_insert]
  split_ifs with same
  · subst same
    have step : Explains contractName (some contract) [event] (some (set contract)) := by
      rw [← applied]
      exact .single (enabled tld contract)
    rw [held]
    unfold current at held
    cases hf : changes[contractName]? with
    | none => exact step
    | some data =>
      obtain ⟨c,fields,effects⟩ := data
      rw [hf] at held
      obtain rfl : c=some contract := held
      exact step
  · exact .nil _

/-- A blob for `hyle`. -/
theorem explains_handleBlobForHyleTld {blob : Blob}
    (h : HyleTld.handleBlobForHyleTld env contracts changes blob=.ok next) :
    Explains name (current contracts changes name) (tldEvents name blob.data)
      (current contracts next name) := by
  unfold HyleTld.handleBlobForHyleTld at h
  unfold tldEvents
  cases hr : BlobData.parse RegisterContractAction blob.data with
  | some reg =>
    simp only [hr] at h ⊢
    exact explains_handleRegisterBlob h
  | none =>
  cases hd : BlobData.parse DeleteContractAction blob.data with
  | some delete =>
    simp only [hr,hd] at h ⊢
    exact explains_handleDeleteBlob h
  | none =>
  cases hp : BlobData.parse UpdateContractProgramIdAction blob.data with
  | some update =>
    simp only [hr,hd,hp] at h ⊢
    exact explains_handleUpdateBlob (.updatedProgramId update.programId) (fun _ => rfl)
      (fun tld _ => ⟨tld,by simp⟩) h
  | none =>
  cases hw : BlobData.parse UpdateContractTimeoutWindowAction blob.data with
  | some update =>
    simp only [hr,hd,hp,hw] at h ⊢
    exact explains_handleUpdateBlob (.updatedTimeoutWindow update.timeoutWindow) (fun _ => rfl)
      (fun tld _ => ⟨tld,by simp⟩) h
  | none =>
    simp only [hr,hd,hp,hw] at h ⊢
    split at h
    · obtain rfl := Except.ok.inj h
      exact .nil _
    · cases h

/-- The events of all blobs lead from the contract before the transaction to the one after. -/
theorem explains_applied (name : ContractName) (hc : WellNamed contracts)
    {blobs : List UnsettledBlobMetadata} {steps : List BlobStep}
    (h : Applied env contracts changes blobs steps last) (hw : WellNamedChanges changes) :
    Explains name (current contracts changes name)
      (steps.flatMap (BlobStep.events contracts name)) (current contracts last name) := by
  induction h with
  | done changes => exact .nil _
  | hyle toHyle handled rest ih =>
    rw [List.flatMap_cons]
    exact (explains_handleBlobForHyleTld handled).append
      (ih (wellNamed_handleBlobForHyleTld hc hw handled))
  | proven other mem success processed rest ih =>
    rw [List.flatMap_cons]
    exact (explains_processProof hc hw other success processed).append
      (ih (wellNamed_processProof hc hw processed))

end Events

section Runs
variable {env : Environment} {name : ContractName}

/-- The events of a call lead from the contract before it to the one after. -/
theorem explains_after {moment : Moment} (hc : WellNamed moment.work.store.contracts) :
    Explains name moment.work.store.contracts[name]? (moment.events env name)
      (moment.after env).store.contracts[name]? := by
  rw [contracts_after]
  cases hs : moment.settled env with
  | none =>
    have quiet : moment.events env name=[] := by
      unfold Moment.events Moment.steps
      rw [hs]
      rfl
    rw [quiet]
    exact .nil _
  | some settled =>
    obtain ⟨tx,result⟩ := settled
    have applied := Moment.applied hs
    have explained := explains_applied name hc applied WellNamedChanges.empty
    have named := (wellNamed_applied hc applied).1.changesNamed
    have start : current moment.work.store.contracts ∅ name=
        moment.work.store.contracts[name]? := by
      unfold current
      simp
    rw [start] at explained
    have reached : (result.contractChanges.toList.foldl changeContract
        moment.work.store.contracts)[name]?=
        current moment.work.store.contracts result.contractChanges name :=
      getElem?_foldl_toList named name
    rw [← reached] at explained
    exact explained

theorem maintained_explains (env : Environment) (name : ContractName) :
    Maintained env (fun _ => True) fun past work => WellNamed work.store.contracts ∧
      Explains name NodeStateStore.default.contracts[name]?
        (past.flatMap (Moment.events env name)) work.store.contracts[name]? where
  note _ _ _ _ h := h
  call := by
    intro past moment allowed h
    refine ⟨(maintained_wellNamed env).call past moment allowed h.1,?_⟩
    rw [List.flatMap_append,List.flatMap_singleton]
    exact h.2.append (explains_after h.1)

/-- In every run, each contract is what its history makes of it: registrations, deletions and
updates by those who may, and proofs of its program, each from the state that the earlier
events leave. -/
theorem contracts_eq_history (env : Environment) (name : ContractName)
    (signedBlocks : List SignedBlock) :
    (handleSignedBlocks env NodeStateStore.default signedBlocks).contracts[name]?=
      (contractHistory env name signedBlocks).foldl ContractEvent.apply
        NodeStateStore.default.contracts[name]? ∧
    Trace.Legal (ContractEvent.Enabled name) ContractEvent.apply
      NodeStateStore.default.contracts[name]? (contractHistory env name signedBlocks) := by
  obtain ⟨_,_,explained⟩ := (maintained_explains env name).run
    ⟨fun _ _ h => h,fun _ _ _ h => h⟩ (fun _ _ _ _ h => h)
    (fun _ => ⟨wellNamed_default,.nil _⟩) signedBlocks
  exact ⟨explained.1.symm,explained.2⟩

end Runs

end TruthSeeker.NodeState
