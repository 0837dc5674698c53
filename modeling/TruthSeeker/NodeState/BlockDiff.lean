import TruthSeeker.NodeState.ContractNames

namespace TruthSeeker

/-- What a block tells of the contracts. -/
structure ContractsDiff where
  registered : Std.ExtTreeMap ContractName (TxHash × RegisterContractEffect × Option Bytes)
  deleted : Std.ExtTreeMap ContractName TxHash
  states : Std.ExtTreeMap ContractName StateCommitment
  programIds : Std.ExtTreeMap ContractName ProgramId
  timeoutWindows : Std.ExtTreeMap ContractName TimeoutWindow

def BlockUnderConstruction.contractsDiff (self : BlockUnderConstruction) : ContractsDiff :=
  ⟨self.registeredContracts,self.deletedContracts,self.updatedStates,self.updatedProgramIds,
    self.updatedTimeoutWindows⟩

namespace ContractsDiff

/-- The contract that a registration describes. -/
def registration (effect : RegisterContractEffect) : Contract :=
  ⟨effect.contractName,effect.programId,effect.stateCommitment,effect.verifier,
    effect.timeoutWindow.getD TimeoutWindow.default⟩

/-- Sets a field of the contracts that are there. -/
def overwrite {α : Type} (set : Contract → α → Contract)
    (updates : Std.ExtTreeMap ContractName α) (contracts : Contracts) : Contracts :=
  updates.toList.foldl (fun contracts update =>
    match contracts[update.1]? with
    | none => contracts
    | some contract => contracts.insert update.1 (set contract update.2)) contracts

/-- What a follower of blocks makes of its contracts: it removes those that were deleted, inserts
those that were registered, and overwrites the fields that were updated. -/
def apply (self : ContractsDiff) (contracts : Contracts) : Contracts :=
  let kept := self.deleted.toList.foldl (fun contracts entry => contracts.erase entry.1) contracts
  let registered := self.registered.toList.foldl
    (fun contracts entry => contracts.insert entry.1 (registration entry.2.2.1)) kept
  let stated := overwrite (fun contract state => { contract with state := state }) self.states
    registered
  let programmed := overwrite (fun contract programId => { contract with programId := programId })
    self.programIds stated
  overwrite (fun contract window => { contract with timeoutWindow := window })
    self.timeoutWindows programmed

section Lookup
variable (self : ContractsDiff) (contracts : Contracts) (name : ContractName)

/-- The contract of the name before its fields are overwritten. -/
def base : Option Contract :=
  match self.registered[name]? with
  | some entry => some (registration entry.2.1)
  | none => if self.deleted.contains name then none else contracts[name]?

/-- The contract of the name with the updates of its fields. -/
def updated (contract : Contract) : Contract :=
  { contract with
    state := self.states.getD name contract.state
    programId := self.programIds.getD name contract.programId
    timeoutWindow := self.timeoutWindows.getD name contract.timeoutWindow }

theorem getElem?_overwrite {α : Type} (set : Contract → α → Contract)
    (updates : Std.ExtTreeMap ContractName α) :
    (overwrite set updates contracts)[name]?=
      contracts[name]?.map fun contract => updates[name]?.elim contract (set contract) := by
  have step := Maps.getElem?_foldl_toList (m := updates)
    (f := fun contracts update => match contracts[update.1]? with
      | none => contracts
      | some contract => contracts.insert update.1 (set contract update.2))
    (g := fun a found => found.map fun contract => set contract a) ?_ contracts name
  · unfold overwrite
    rw [step]
    cases updates[name]? <;> simp
  · intro update _ acc k
    cases ha : acc[update.1]? with
    | none =>
      by_cases hk : update.1=k
      · subst hk
        simp [ha]
      · simp [hk]
    | some contract =>
      by_cases hk : update.1=k
      · subst hk
        simp [ha]
      · simp [hk,Std.ExtTreeMap.getElem?_insert]

/-- The lookup in what a follower makes of its contracts. -/
theorem getElem?_apply :
    (self.apply contracts)[name]?=(self.base contracts name).map (self.updated name) := by
  have kept := Maps.getElem?_foldl_toList (m := self.deleted)
    (f := fun (contracts : Contracts) entry => contracts.erase entry.1)
    (g := fun _ _ => none) (by simp [Std.ExtTreeMap.getElem?_erase]) contracts name
  have registered := fun acc : Contracts => Maps.getElem?_foldl_toList (m := self.registered)
    (f := fun (contracts : Contracts) entry => contracts.insert entry.1 (registration entry.2.2.1))
    (g := fun entry _ => some (registration entry.2.1))
    (by simp [Std.ExtTreeMap.getElem?_insert]) acc name
  have looked : (self.registered.toList.foldl
      (fun contracts entry => contracts.insert entry.1 (registration entry.2.2.1))
      (self.deleted.toList.foldl (fun contracts entry => contracts.erase entry.1)
        contracts))[name]?=self.base contracts name := by
    rw [registered,kept,base]
    cases self.registered[name]? with
    | some entry => rfl
    | none =>
      rw [Std.ExtTreeMap.contains_eq_isSome_getElem?]
      cases self.deleted[name]? <;> rfl
  unfold apply
  dsimp only
  rw [getElem?_overwrite,getElem?_overwrite,getElem?_overwrite,looked,Option.map_map,
    Option.map_map]
  congr 1
  funext contract
  simp only [Function.comp,updated,Std.ExtTreeMap.getD_eq_getD_getElem?]
  cases self.states[name]? <;> cases self.programIds[name]? <;>
    cases self.timeoutWindows[name]? <;> rfl

end Lookup

end ContractsDiff

namespace NodeState

/-- The contracts are those that a follower makes of the old ones. -/
def Follows (old contracts : Contracts) (diff : ContractsDiff) : Prop :=
  ∀ name,(diff.base old name).map (diff.updated name)=contracts[name]?

/-- A change from the old contract, if there was one, that says which fields it changes: all
for a new contract, and never the verifier of an old one. -/
structure Flagged (old : Option Contract) (contract : Contract) (fields : ModifiedContractFields) :
    Prop where
  verifier : ∀ c,old=some c → contract.verifier=c.verifier
  state : fields.state=false → ∃ c,old=some c ∧ contract.state=c.state
  programId : fields.programId=false → ∃ c,old=some c ∧ contract.programId=c.programId
  timeoutWindow : fields.timeoutWindow=false →
    ∃ c,old=some c ∧ contract.timeoutWindow=c.timeoutWindow

section Change
variable {old : Contracts} {bth : TxHash} {block : BlockUnderConstruction}

theorem contractsDiff_noteContract (isNew : Bool) (contractName : ContractName)
    (contract : Contract) (fields : ModifiedContractFields) (sideEffects : List SideEffect) :
    (noteContract bth isNew contractName contract fields sideEffects block).contractsDiff=
      { registered := if isNew then block.registeredContracts.insert contractName
          (bth,⟨contract.verifier,contract.programId,contract.state,contractName,
            some contract.timeoutWindow⟩,registeredMetadata sideEffects)
          else block.registeredContracts
        deleted := if isNew then block.deletedContracts.erase contractName
          else block.deletedContracts
        states := if fields.state then block.updatedStates.insert contract.name contract.state
          else block.updatedStates
        programIds := if fields.programId
          then block.updatedProgramIds.insert contract.name contract.programId
          else block.updatedProgramIds
        timeoutWindows := if fields.timeoutWindow
          then block.updatedTimeoutWindows.insert contract.name contract.timeoutWindow
          else block.updatedTimeoutWindows } := by
  obtain ⟨programId,state,verifier,timeoutWindow⟩ := fields
  cases isNew <;> cases programId <;> cases state <;> cases timeoutWindow <;> rfl

theorem getD_flagged {α : Type} {flag : Bool} {m : Std.ExtTreeMap ContractName α}
    {name other : ContractName} {a d : α} : (if flag then m.insert name a else m).getD other d=
      if flag=true ∧ name=other then a else m.getD other d := by
  cases flag <;> simp [Std.ExtTreeMap.getD_insert]

section Note
variable {contracts : Contracts} {contract : Contract} {isNew : Bool}
  {fields : ModifiedContractFields} {sideEffects : List SideEffect} {diff : ContractsDiff}

theorem follows_insert (hd : diff=(noteContract bth isNew contract.name contract fields
      sideEffects block).contractsDiff) (h : Follows old contracts block.contractsDiff)
    (here : (diff.base old contract.name).map (diff.updated contract.name)=some contract) :
    Follows old (contracts.insert contract.name contract) diff := by
  intro name
  rw [Std.ExtTreeMap.getElem?_insert]
  by_cases same : contract.name=name
  · subst same
    rw [if_pos Std.ReflOrd.compare_self]
    exact here
  · have apart : compare contract.name name≠.eq := fun heq =>
      same (Std.LawfulEqOrd.eq_of_compare heq)
    rw [contractsDiff_noteContract] at hd
    have base : diff.base old name=block.contractsDiff.base old name := by
      rw [hd]
      cases isNew <;>
        simp [ContractsDiff.base,BlockUnderConstruction.contractsDiff,same,
          Std.ExtTreeMap.getElem?_insert]
    have updated : diff.updated name=block.contractsDiff.updated name := by
      rw [hd]
      funext c
      simp [ContractsDiff.updated,BlockUnderConstruction.contractsDiff,same,getD_flagged]
    rw [if_neg apart,base,updated]
    exact h name

/-- A new contract is registered, and all its fields are noted as well. -/
theorem follows_new (hc : contracts[contract.name]?=none)
    (hf : Flagged contracts[contract.name]? contract fields)
    (h : Follows old contracts block.contractsDiff) :
    Follows old (contracts.insert contract.name contract)
      (noteContract bth true contract.name contract fields sideEffects block).contractsDiff := by
  have all : fields.state=true ∧ fields.programId=true ∧ fields.timeoutWindow=true := by
    rw [hc] at hf
    refine ⟨?_,?_,?_⟩
    · by_contra hn
      obtain ⟨c,ho,_⟩ := hf.state (by simpa using hn)
      cases ho
    · by_contra hn
      obtain ⟨c,ho,_⟩ := hf.programId (by simpa using hn)
      cases ho
    · by_contra hn
      obtain ⟨c,ho,_⟩ := hf.timeoutWindow (by simpa using hn)
      cases ho
  refine follows_insert rfl h ?_
  rw [contractsDiff_noteContract]
  simp [ContractsDiff.base,ContractsDiff.updated,ContractsDiff.registration,all]

/-- Of an old contract the changed fields are noted, and its verifier stays. -/
theorem follows_known {c : Contract} (hc : contracts[contract.name]?=some c)
    (hn : c.name=contract.name) (hf : Flagged contracts[contract.name]? contract fields)
    (h : Follows old contracts block.contractsDiff) :
    Follows old (contracts.insert contract.name contract)
      (noteContract bth false contract.name contract fields sideEffects block).contractsDiff := by
  refine follows_insert rfl h ?_
  have before := h contract.name
  rw [hc] at before hf
  obtain ⟨b,hb,hu⟩ := Option.map_eq_some_iff.mp before
  have unflagged : ∀ {P : Contract → Prop},(∃ c',some c=some c' ∧ P c') → P c := by
    intro P hp
    obtain ⟨c',heq,hp⟩ := hp
    exact Option.some.inj heq ▸ hp
  have verifier := hf.verifier c rfl
  have state := fun he => unflagged (hf.state he)
  have programId := fun he => unflagged (hf.programId he)
  have window := fun he => unflagged (hf.timeoutWindow he)
  rw [← hu] at verifier state programId window hn
  have kept : ∀ {α : Type} {flag : Bool} {x y : α},(flag=false → x=y) →
      (if flag=true ∧ True then x else y)=x := by
    intro α flag x y he
    cases flag
    · simp [he rfl]
    · simp
  have base : ∀ diff,diff=(noteContract bth false contract.name contract fields sideEffects
      block).contractsDiff → diff.base old contract.name=some b := by
    intro diff hd
    rw [hd,contractsDiff_noteContract,← hb]
    rfl
  rw [base _ rfl,contractsDiff_noteContract,Option.map_some]
  congr 1
  cases contract with
  | mk name newId newState newVerifier newWindow =>
    simp only [ContractsDiff.updated,getD_flagged,Contract.mk.injEq]
    exact ⟨hn,kept programId,kept state,verifier.symm,kept window⟩

/-- A deleted contract is gone for the followers as well. -/
theorem follows_deleted {name : ContractName} {bth : TxHash}
    (h : Follows old contracts block.contractsDiff) :
    Follows old (contracts.erase name)
      { block.contractsDiff with
        registered := block.contractsDiff.registered.erase name
        deleted := block.contractsDiff.deleted.insert name bth } := by
  intro other
  rw [Std.ExtTreeMap.getElem?_erase]
  by_cases same : name=other
  · subst same
    simp [ContractsDiff.base]
  · have apart : compare name other≠.eq := fun heq => same (Std.LawfulEqOrd.eq_of_compare heq)
    rw [if_neg apart,← h other]
    simp only [ContractsDiff.base,Std.ExtTreeMap.getElem?_erase,if_neg apart,
      Std.ExtTreeMap.contains_insert]
    have notEq : (compare name other==.eq)=false := by simpa using apart
    rw [notEq,Bool.false_or]
    rfl

end Note

/-- The changes of one transaction can be followed. -/
theorem follows_applyContractChange {work : Work} {change : ContractName × ModifiedContractData}
    (hw : WellNamed work.store.contracts)
    (hn : ∀ contract,change.2.1=some contract → contract.name=change.1)
    (hf : ∀ contract,change.2.1=some contract →
      Flagged work.store.contracts[change.1]? contract change.2.2.1)
    (h : Follows old work.store.contracts work.block.contractsDiff) :
    Follows old (applyContractChange bth work change).store.contracts
      (applyContractChange bth work change).block.contractsDiff := by
  obtain ⟨contractName,data,fields,sideEffects⟩ := change
  cases data with
  | some contract =>
    obtain rfl : contract.name=contractName := hn contract rfl
    have flagged := hf contract rfl
    unfold applyContractChange updateContract
    dsimp only
    cases hc : work.store.contracts[contract.name]? with
    | none =>
      have isNew : decide (¬work.store.contracts.contains contract.name)=true := by
        simp [Std.ExtTreeMap.contains_eq_isSome_getElem?,hc]
      rw [isNew]
      exact follows_new hc flagged h
    | some c =>
      have known : decide (¬work.store.contracts.contains contract.name)=false := by
        simp [Std.ExtTreeMap.contains_eq_isSome_getElem?,hc]
      rw [known]
      exact follows_known hc (hw _ c hc).1 flagged h
  | none =>
    rw [contracts_applyContractChange]
    have kept : ∀ (txs : List UnsettledBlobTransaction) (w : Work),
        (txs.foldl (fun work tx => (work.pushEvent tx.hash .timedOut).locate tx)
          w).block.contractsDiff=w.block.contractsDiff := by
      intro txs w
      exact List.foldlRecOn
        (motive := fun next : Work => next.block.contractsDiff=w.block.contractsDiff) _ _ rfl
        fun _ hnext _ _ => hnext
    have diff : (applyContractChange bth work
        (contractName,none,fields,sideEffects)).block.contractsDiff=
        { work.block.contractsDiff with
          registered := work.block.contractsDiff.registered.erase contractName
          deleted := work.block.contractsDiff.deleted.insert contractName bth } := by
      have same := kept (work.pending.removeAll contractName).1
        (work.setPending (work.pending.removeAll contractName).2)
      exact congrArg (fun d : ContractsDiff => { d with
        registered := d.registered.erase contractName
        deleted := d.deleted.insert contractName bth }) same
    rw [diff]
    exact follows_deleted h

end Change

section Flags
variable {env : Environment} {contracts : Contracts} {changes next : ContractChanges}

/-- A contract of the name would keep its verifier. -/
def SameVerifier (contracts : Contracts) (name : ContractName) (verifier : Verifier) : Prop :=
  ∀ contract,contracts[name]?=some contract → verifier=contract.verifier

instance (name : ContractName) (verifier : Verifier) :
    Decidable (SameVerifier contracts name verifier) :=
  inferInstanceAs (Decidable (∀ contract ∈ contracts[name]?,verifier=contract.verifier))

def EffectKeepsVerifier (contracts : Contracts) : OnchainEffect → Prop
  | .registerContract effect => SameVerifier contracts effect.contractName effect.verifier
  | .deleteContract _ => True

instance : DecidablePred (EffectKeepsVerifier contracts)
  | .registerContract effect =>
      inferInstanceAs (Decidable (SameVerifier contracts effect.contractName effect.verifier))
  | .deleteContract _ => inferInstanceAs (Decidable True)

/-- What a blob registers keeps the verifier of the contract that is there under the same name:
the effects of the proof that settlement uses for it, or its action if it is for `hyle`. -/
def KeepsVerifiers (contracts : Contracts) (step : BlobStep) : Prop :=
  match step.proof with
  | none => ∀ reg ∈ BlobData.parse RegisterContractAction step.metadata.blob.data,
      SameVerifier contracts reg.contractName reg.verifier
  | some proof => ∀ effect ∈ proof.2.onchainEffects,EffectKeepsVerifier contracts effect

instance : DecidablePred (KeepsVerifiers contracts)
  | ⟨metadata,none,_,_⟩ =>
      inferInstanceAs (Decidable (∀ reg ∈ BlobData.parse RegisterContractAction metadata.blob.data,
        SameVerifier contracts reg.contractName reg.verifier))
  | ⟨_,some proof,_,_⟩ => inferInstanceAs (Decidable (∀ effect ∈ proof.2.onchainEffects,
      EffectKeepsVerifier contracts effect))

/-- All changes are flagged. -/
def FlaggedChanges (contracts : Contracts) (changes : ContractChanges) : Prop :=
  ∀ (name : ContractName) (data : ModifiedContractData),changes[name]?=some data →
    ∀ contract,data.1=some contract → Flagged contracts[name]? contract data.2.1

theorem FlaggedChanges.insert (h : FlaggedChanges contracts changes) {name : ContractName}
    {data : ModifiedContractData}
    (hd : ∀ contract,data.1=some contract → Flagged contracts[name]? contract data.2.1) :
    FlaggedChanges contracts (changes.insert name data) := by
  intro other found hf contract hc
  rw [Std.ExtTreeMap.getElem?_insert] at hf
  split_ifs at hf with heq
  · obtain rfl := Std.LawfulEqOrd.eq_of_compare heq
    obtain rfl := Option.some.inj hf
    exact hd contract hc
  · exact h other found hf contract hc

/-- A registration flags all fields. -/
theorem flagged_all {old : Option Contract} {contract : Contract}
    (hv : ∀ c,old=some c → contract.verifier=c.verifier) :
    Flagged old contract ModifiedContractFields.all where
  verifier := hv
  state h := by cases h
  programId h := by cases h
  timeoutWindow h := by cases h

theorem flagged_none (contract : Contract) :
    Flagged (some contract) contract ModifiedContractFields.none where
  verifier _ h := congrArg Contract.verifier (Option.some.inj h)
  state _ := ⟨contract,rfl,rfl⟩
  programId _ := ⟨contract,rfl,rfl⟩
  timeoutWindow _ := ⟨contract,rfl,rfl⟩

theorem Flagged.setState {old : Option Contract} {contract : Contract}
    {fields : ModifiedContractFields} (h : Flagged old contract fields)
    (state : StateCommitment) :
    Flagged old { contract with state := state } { fields with state := true } where
  verifier := h.verifier
  state hf := by cases hf
  programId := h.programId
  timeoutWindow := h.timeoutWindow

theorem Flagged.setProgramId {old : Option Contract} {contract : Contract}
    {fields : ModifiedContractFields} (h : Flagged old contract fields) (programId : ProgramId) :
    Flagged old { contract with programId := programId } { fields with programId := true } where
  verifier := h.verifier
  state := h.state
  programId hf := by cases hf
  timeoutWindow := h.timeoutWindow

theorem Flagged.setTimeoutWindow {old : Option Contract} {contract : Contract}
    {fields : ModifiedContractFields} (h : Flagged old contract fields)
    (timeoutWindow : TimeoutWindow) :
    Flagged old { contract with timeoutWindow := timeoutWindow }
      { fields with timeoutWindow := true } where
  verifier := h.verifier
  state := h.state
  programId := h.programId
  timeoutWindow hf := by cases hf

theorem flagged_applyEffect {contract : Contract} {blob : Blob} {effect : OnchainEffect}
    (hv : EffectKeepsVerifier contracts effect) (h : FlaggedChanges contracts changes)
    (he : applyEffect env contract blob changes effect=.ok next) :
    FlaggedChanges contracts next := by
  cases effect with
  | registerContract effect =>
    unfold applyEffect at he
    obtain ⟨_,_,he⟩ := Outcome.bind_eq_ok.mp he
    split at he
    · cases he
    · obtain rfl := Except.ok.inj he
      apply h.insert
      intro c hc
      obtain rfl := Option.some.inj hc
      exact flagged_all hv
  | deleteContract name =>
    unfold applyEffect at he
    obtain ⟨_,_,he⟩ := Outcome.bind_eq_ok.mp he
    obtain rfl := Except.ok.inj he
    apply h.insert
    intro c hc
    split at hc <;> cases hc

theorem flagged_foldlM_applyEffect {contract : Contract} {blob : Blob}
    {effects : List OnchainEffect}
    (hv : ∀ effect ∈ effects,EffectKeepsVerifier contracts effect)
    (h : FlaggedChanges contracts changes)
    (he : effects.foldlM (applyEffect env contract blob) changes=.ok next) :
    FlaggedChanges contracts next ∧
      ∀ name : ContractName,next[name]?=none → changes[name]?=none := by
  induction effects generalizing changes with
  | nil =>
    obtain rfl := Except.ok.inj he
    exact ⟨h,fun _ => id⟩
  | cons effect effects ih =>
    rw [List.foldlM_cons] at he
    obtain ⟨mid,hm,hr⟩ := Outcome.bind_eq_ok.mp he
    have head : FlaggedChanges contracts mid :=
      flagged_applyEffect (hv effect List.mem_cons_self) h hm
    obtain ⟨flagged,absent⟩ := ih (fun e hmem => hv e (List.mem_cons_of_mem _ hmem)) head hr
    refine ⟨flagged,?_⟩
    intro name hn
    have gone := absent name hn
    obtain ⟨data,rfl,_,_⟩ := applyEffect_eq_ok hm
    rw [Std.ExtTreeMap.getElem?_insert] at gone
    split_ifs at gone
    exact gone

theorem flagged_processProof (hc : WellNamed contracts) (hn : WellNamedChanges changes)
    (h : FlaggedChanges contracts changes) {contractName : ContractName}
    {proof : ProgramId × HyleOutput} {blob : Blob}
    (hv : ∀ effect ∈ proof.2.onchainEffects,EffectKeepsVerifier contracts effect)
    (hp : processProof env contracts changes contractName proof blob=.ok next) :
    FlaggedChanges contracts next := by
  obtain ⟨contract,mid,hg,_,_,_,he,rfl⟩ := processProof_eq_ok hp
  obtain ⟨flagged,absent⟩ := flagged_foldlM_applyEffect hv h he
  have name := (wellNamed_getContract hc hn hg).1
  apply flagged.insert
  intro c hc'
  cases hm : mid[contract.name]? with
  | none =>
    simp only [hm] at hc'
    obtain rfl := Option.some.inj hc'
    have fresh := absent _ hm
    rw [name] at fresh
    obtain ⟨data,hd,_⟩|⟨_,found⟩ := getContract_eq_ok hg
    · rw [fresh] at hd
      cases hd
    · rw [← name] at found
      rw [found]
      exact (flagged_none contract).setState _
  | some data =>
    obtain ⟨copy,fields,effects⟩ := data
    cases copy with
    | none =>
      simp only [hm] at hc'
      cases hc'
    | some found =>
      simp only [hm] at hc'
      obtain rfl := Option.some.inj hc'
      exact (flagged _ _ hm found rfl).setState _

theorem flagged_handleUpdateBlob (h : FlaggedChanges contracts changes)
    {contractName : ContractName} {set : Contract → Contract} {mark : ModifiedContractFields → ModifiedContractFields}
    {effect : SideEffect}
    (hs : ∀ {old contract fields},Flagged old contract fields →
      Flagged old (set contract) (mark fields))
    (hu : HyleTld.handleUpdateBlob contracts changes contractName set mark effect=.ok next) :
    FlaggedChanges contracts next := by
  unfold HyleTld.handleUpdateBlob at hu
  split_ifs at hu
  obtain ⟨contract,hg,hu⟩ := Outcome.bind_eq_ok.mp hu
  obtain rfl := Except.ok.inj hu
  apply h.insert
  intro c hc
  cases hf : changes[contractName]? with
  | none =>
    simp only [hf] at hc ⊢
    obtain rfl := Option.some.inj hc
    obtain ⟨data,hd,_⟩|⟨_,found⟩ := getContract_eq_ok hg
    · rw [hf] at hd
      cases hd
    · rw [found]
      exact hs (flagged_none contract)
  | some data =>
    obtain ⟨copy,fields,effects⟩ := data
    simp only [hf] at hc ⊢
    obtain ⟨found,rfl,rfl⟩ := Option.map_eq_some_iff.mp hc
    exact hs (h _ _ hf found rfl)

theorem flagged_handleBlobForHyleTld (h : FlaggedChanges contracts changes) {blob : Blob}
    (hv : ∀ reg ∈ BlobData.parse RegisterContractAction blob.data,
      SameVerifier contracts reg.contractName reg.verifier)
    (hb : HyleTld.handleBlobForHyleTld env contracts changes blob=.ok next) :
    FlaggedChanges contracts next := by
  unfold HyleTld.handleBlobForHyleTld at hb
  split at hb
  · next reg hr =>
    unfold HyleTld.handleRegisterBlob at hb
    obtain ⟨_,_,hb⟩ := Outcome.bind_eq_ok.mp hb
    split_ifs at hb
    obtain rfl := Except.ok.inj hb
    apply h.insert
    intro c hc
    obtain rfl := Option.some.inj hc
    exact flagged_all (hv reg hr)
  · split at hb
    · unfold HyleTld.handleDeleteBlob at hb
      split_ifs at hb
      obtain rfl := Except.ok.inj hb
      apply h.insert
      intro c hc
      cases hc
    · split at hb
      · unfold HyleTld.handleUpdateProgramIdBlob at hb
        refine flagged_handleUpdateBlob h ?_ hb
        exact fun hf => hf.setProgramId _
      · split at hb
        · unfold HyleTld.handleUpdateTimeoutWindowBlob at hb
          refine flagged_handleUpdateBlob h ?_ hb
          exact fun hf => hf.setTimeoutWindow _
        · split at hb
          · obtain rfl := Except.ok.inj hb
            exact h
          · cases hb

theorem flagged_applied {blobs : List UnsettledBlobMetadata} {steps : List BlobStep}
    (hc : WellNamed contracts) (hk : ∀ step ∈ steps,KeepsVerifiers contracts step)
    (h : Applied env contracts ∅ blobs steps changes) :
    WellNamedChanges changes ∧ FlaggedChanges contracts changes := by
  have empty : FlaggedChanges contracts ∅ := by
    intro name data hf
    simp at hf
  refine h.keeps (I := fun changes => WellNamedChanges changes ∧
    FlaggedChanges contracts changes) ?_ ⟨WellNamedChanges.empty,empty⟩
  intro step hs hi
  have keeps := hk step hs
  unfold KeepsVerifiers at keeps
  cases hp : step.proof with
  | none =>
    rw [hp] at keeps
    obtain ⟨_,_,handled⟩ := h.of_none hs hp
    exact ⟨wellNamed_handleBlobForHyleTld hc hi.1 handled,
      flagged_handleBlobForHyleTld hi.2 keeps handled⟩
  | some proof =>
    rw [hp] at keeps
    obtain ⟨_,_,_,_,processed⟩ := h.of_proof hs hp
    exact ⟨wellNamed_processProof hc hi.1 processed,
      flagged_processProof hc hi.1 hi.2 keeps processed⟩

end Flags

section Rounds
variable {env : Environment} {old : Contracts} {bth : TxHash} {tx : UnsettledBlobTransaction}

theorem contractsDiff_noted {block next : BlockUnderConstruction} (h : Noted block next) :
    next.contractsDiff=block.contractsDiff := by
  obtain ⟨_,_,_,_,_,rfl⟩ := h
  rfl

/-- All changes of a settled transaction, each of a contract of its own, can be followed. -/
theorem follows_foldl_applyContractChange
    {changes : List (ContractName × ModifiedContractData)} {work : Work}
    (hd : (changes.map Prod.fst).Nodup) (hw : WellNamed work.store.contracts)
    (hn : ∀ change ∈ changes,∀ contract,change.2.1=some contract →
      contract.name=change.1 ∧ ValidName change.1)
    (hf : ∀ change ∈ changes,∀ contract,change.2.1=some contract →
      Flagged work.store.contracts[change.1]? contract change.2.2.1)
    (h : Follows old work.store.contracts work.block.contractsDiff) :
    let last := changes.foldl (applyContractChange bth) work
    WellNamed last.store.contracts ∧ Follows old last.store.contracts last.block.contractsDiff := by
  induction changes generalizing work with
  | nil => exact ⟨hw,h⟩
  | cons change changes ih =>
    obtain ⟨fresh,distinct⟩ := List.nodup_cons.mp hd
    have named := fun contract hc => (hn change List.mem_cons_self contract hc).1
    have valid : ∀ c ∈ [change],∀ contract,c.2.1=some contract → ValidName contract.name := by
      intro c hc contract hs
      obtain rfl := List.mem_singleton.mp hc
      obtain ⟨same,valid⟩ := hn c List.mem_cons_self contract hs
      rwa [same]
    have first := @follows_applyContractChange old bth work change hw named
      (hf change List.mem_cons_self) h
    have wellNamed : WellNamed (applyContractChange bth work change).store.contracts := by
      rw [contracts_applyContractChange]
      exact wellNamed_foldl_changeContract hw valid
    refine ih distinct wellNamed (fun c hc => hn c (List.mem_cons_of_mem _ hc)) ?_ first
    intro c hc contract hs
    have apart : change.1≠c.1 := fun heq => fresh (heq ▸ List.mem_map_of_mem hc)
    rw [contracts_applyContractChange,getElem?_changeContract named,if_neg apart]
    exact hf c (List.mem_cons_of_mem _ hc) contract hs

theorem contractsDiff_recordBlobs {identity : Identity} {indices : List Nat}
    (entries : List (BlobIndex × UnsettledBlobMetadata)) (block : BlockUnderConstruction) :
    (entries.foldl (recordBlob bth identity indices) block).contractsDiff=
      block.contractsDiff := by
  refine List.foldlRecOn
    (motive := fun next : BlockUnderConstruction => next.contractsDiff=block.contractsDiff)
    _ _ rfl ?_
  intro next hs entry _
  unfold recordBlob
  dsimp only
  split
  · split <;> exact hs
  · exact hs

theorem contractsDiff_forceOutputs (work : Work) :
    (forceOutputs bth tx work).1.block.contractsDiff=work.block.contractsDiff := by
  refine List.foldlRecOn (motive := fun state : Work × TxHashSet =>
    state.1.block.contractsDiff=work.block.contractsDiff) _ _ rfl ?_
  intro state hs update _
  unfold applyNuke
  dsimp only
  split <;> exact hs

/-- A round of settlement can be followed if it keeps the verifiers. -/
theorem follows_settleTx {order : List TxHash} {work : Work}
    (hw : WellNamed work.store.contracts)
    (hk : ∀ step ∈ (Moment.mk order work (.settle bth)).steps env,
      KeepsVerifiers work.store.contracts step)
    (h : Follows old work.store.contracts work.block.contractsDiff) :
    Follows old (settleTx env bth work).1.store.contracts
      (settleTx env bth work).1.block.contractsDiff := by
  obtain ⟨block,noted,eq⟩|⟨tx,rest,result,hr,ht,eq⟩ := settleTx_outcome env bth work
  · rw [eq]
    show Follows old work.store.contracts block.contractsDiff
    rw [contractsDiff_noted noted]
    exact h
  · rw [eq]
    cases result with
    | error e => exact h
    | ok result =>
      have settled := @Moment.settled_of_ok env tx result order work bth rest hr ht
      obtain ⟨named,flagged⟩ := flagged_applied hw hk (Moment.applied settled)
      show Follows old (forceOutputs bth tx _).1.store.contracts
        (forceOutputs bth tx _).1.block.contractsDiff
      rw [contracts_forceOutputs,contractsDiff_forceOutputs]
      let recorded := tx.blobs.toList.foldl
        (recordBlob bth tx.identity result.blobProofOutputIndices)
        ((settling env bth work tx rest).pushEvent bth .settled).block
      let entered := (settling env bth work tx rest).setBlock recorded
      have before : Follows old entered.store.contracts entered.block.contractsDiff := by
        show Follows old work.store.contracts recorded.contractsDiff
        rw [contractsDiff_recordBlobs]
        exact h
      have listed : ∀ change ∈ result.contractChanges.toList,
          result.contractChanges[change.1]?=some change.2 :=
        fun change hm => Std.ExtTreeMap.mem_toList_iff_getElem?_eq_some.mp hm
      have entersNamed : WellNamed entered.store.contracts := hw
      have flags : ∀ change ∈ result.contractChanges.toList,∀ contract,
          change.2.1=some contract →
          Flagged entered.store.contracts[change.1]? contract change.2.2.1 :=
        fun change hm => flagged _ _ (listed change hm)
      exact (follows_foldl_applyContractChange (Maps.nodup_map_fst_toList _) entersNamed
        (fun change hm => named _ _ (listed change hm)) flags before).2

/-- In a run that keeps the verifiers, each block can be followed while it is built. -/
theorem maintained_follows (env : Environment) (old : Contracts) :
    Maintained env (fun _ => True) fun past work =>
      (∀ moment ∈ past,∀ step ∈ moment.steps env,
        KeepsVerifiers moment.work.store.contracts step) →
      WellNamed work.store.contracts ∧
        Follows old work.store.contracts work.block.contractsDiff where
  note past work block noted h hk := by
    obtain ⟨named,follows⟩ := h hk
    refine ⟨named,?_⟩
    show Follows old work.store.contracts block.contractsDiff
    rwa [contractsDiff_noted noted]
  call := by
    intro past moment _ h hk
    obtain ⟨named,follows⟩ := h fun m hm => hk m (List.mem_append_left _ hm)
    have keeps := hk moment (List.mem_append_right _ (List.mem_singleton_self _))
    have stays : WellNamed (moment.after env).store.contracts :=
      (maintained_wellNamed env).call past moment trivial named
    refine ⟨stays,?_⟩
    obtain ⟨order,work,call⟩ := moment
    cases call with
    | settle bth => exact follows_settleTx named keeps follows
    | sequence parentDpHash laneId tx =>
      rw [contracts_after]
      show Follows old work.store.contracts _
      unfold Moment.after
      dsimp only
      split <;> exact follows
    | prove proofTxHash entry =>
      rw [contracts_after]
      show Follows old work.store.contracts (handleBlobProof env proofTxHash work
        entry).1.block.contractsDiff
      rw [contractsDiff_noted (noted_handleBlobProof env proofTxHash work entry)]
      exact follows
    | timeOut txHash =>
      rw [contracts_after]
      show Follows old work.store.contracts (work.drop txHash).block.contractsDiff
      unfold Work.drop
      split <;> exact follows
    | reschedule hashes =>
      rw [contracts_after]
      exact follows

end Rounds

section Runs
variable {env : Environment}

/-- No blob of a settled transaction of the run registers a contract anew with another
verifier. -/
def RunKeepsVerifiers (env : Environment) (signedBlocks : List SignedBlock) : Prop :=
  ∀ moment ∈ moments env signedBlocks,∀ step ∈ moment.steps env,
    KeepsVerifiers moment.work.store.contracts step

instance (signedBlocks : List SignedBlock) : Decidable (RunKeepsVerifiers env signedBlocks) :=
  inferInstanceAs (Decidable (∀ moment ∈ moments env signedBlocks,∀ step ∈ moment.steps env,
    KeepsVerifiers moment.work.store.contracts step))

/-- A follower that applies the blocks in order has the contracts of the node after each one. -/
def BlocksFollowed (env : Environment) (signedBlocks : List SignedBlock) : Prop :=
  ∀ before signedBlock after,signedBlocks=before++signedBlock::after →
    let store := handleSignedBlocks env NodeStateStore.default before
    ∀ next block,handleSignedBlock env store signedBlock=(next,.ok block) →
      block.contractsDiff.apply store.contracts=next.contracts

/-- The calls of a block are among those of the run. -/
theorem mem_moments_of_mem {before after : List SignedBlock} {signedBlock : SignedBlock}
    {moment : Moment}
    (h : moment∈blockMoments env (before.foldl (blockStep env) ([],NodeStateStore.default))
      signedBlock) : moment∈moments env (before++signedBlock::after) :=
  Trace.mem_outputs_of_mem h

/-- In a run that keeps the verifiers, no follower diverges. -/
theorem blocksFollowed (env : Environment) (signedBlocks : List SignedBlock)
    (h : RunKeepsVerifiers env signedBlocks) : BlocksFollowed env signedBlocks := by
  rintro before signedBlock after rfl store next block handled
  let state := before.foldl (blockStep env) ([],NodeStateStore.default)
  have reached : state.2=store := foldl_blockStep
  have ho : InOrder store signedBlock := inOrder_of_ok (congrArg Prod.snd handled)
  rw [handleSignedBlock_of_inOrder ho] at handled
  obtain ⟨rfl,out⟩ := Prod.mk.inj handled
  obtain rfl := Except.ok.inj out
  have keeps : ∀ moment ∈ []++blockMoments env (state.1,store) signedBlock,
      ∀ step ∈ moment.steps env,KeepsVerifiers moment.work.store.contracts step := by
    intro moment hm
    rw [List.nil_append,← reached] at hm
    exact h moment (mem_moments_of_mem hm)
  have start : ∀ name : ContractName,
      ((beginBlock env store signedBlock).block.contractsDiff.base store.contracts name).map
        ((beginBlock env store signedBlock).block.contractsDiff.updated name)=
          store.contracts[name]? := by
    intro name
    have same : ContractsDiff.updated ⟨∅,∅,∅,∅,∅⟩ name=id := by
      funext contract
      simp [ContractsDiff.updated]
    simp [beginBlock,startBlock,BlockUnderConstruction.contractsDiff,ContractsDiff.base,same]
  have followed := (maintained_follows env store.contracts).blockWork ⟨fun _ _ hp => hp,fun _ _ _ hp => hp⟩ ho
    (fun _ => ⟨wellNamed_handleSignedBlocks env before,start⟩) keeps
  apply Std.ExtTreeMap.ext_getElem?
  intro name
  rw [ContractsDiff.getElem?_apply]
  exact followed.2 name

end Runs

namespace Reregistered

open TwoContracts (register block proofTx)

def registerTx : BlobTransaction := ⟨"hyle@hyle",[register "foo"]⟩

/-- The contract registers its own name again, with a new program and a new state. -/
def action (verifier : Verifier) : RegisterContractAction := ⟨verifier,[2],[5],"foo",none,none⟩

def tx (verifier : Verifier) : BlobTransaction :=
  ⟨"bob@foo",[⟨"foo",(Borsh.ser (⟨none,none,action verifier⟩ :
    StructuredBlobData RegisterContractAction)).getD []⟩]⟩

def digest (verifier : Verifier) : H256 :=
  if verifier="test" then
    ByteVec.ofNat 32 0xd6df0128f48670502adc12730be1dff56db80a9eb0b5e5a9911bbcee25c92e51
  else ByteVec.ofNat 32 0xcfc9fb06cc82ab594fb26b26b8d67e7670f69c6f89707f79c9edd0e3e2773181

def hash (verifier : Verifier) : TxHash := Bytes.hex (digest verifier).toList

def entry (verifier : Verifier) : BlobProofOutput where
  blobTxHash := hash verifier
  originalProofHash := ""
  hyleOutput := { TwoContracts.output with
    nextState := [5]
    identity := "bob@foo"
    txBlobCount := 1
    txHash := hash verifier
    onchainEffects := [.registerContract (action verifier).effect] }
  programId := [1]

def signedBlock (verifier : Verifier) : SignedBlock :=
  block [⟨1,.blob registerTx⟩,⟨1,.blob (tx verifier)⟩,proofTx "foo" (entry verifier)]

def blobDigests : List (Bytes × H256) :=
  [(utf8 "hyle"++(register "foo").data,
    ByteVec.ofNat 32 0x54a930b17902efbb70102a504c95620b28f2fea6cb8f112599cd9201233556c6),
   (((tx "test").blobs.flatMap fun blob => utf8 blob.contractName++blob.data),
    ByteVec.ofNat 32 0xbb68fc273f7a0cb693e628dbb5024a91cc45449d21653446e161fc0579e5ee35),
   (((tx "other").blobs.flatMap fun blob => utf8 blob.contractName++blob.data),
    ByteVec.ofNat 32 0x58886a06e7dbd15ae73d277f5abe7934494a0046c724c2b47e688eb2101afeba),
   ((action "test").effect.preimage,
    ByteVec.ofNat 32 0xbbbf690955a0408b953990d7d59eea21636fb393607ba524724d42eb683112a3),
   ((action "other").effect.preimage,
    ByteVec.ofNat 32 0x8e2097089d2d71645e4f90a65ee909d7a8af5f2f03816c25ee4b7d8d7a5716cc)]

def txDigests : List (Bytes × H256) :=
  let sha3 := ByteVec.lookup blobDigests
  [(Transaction.preimage sha3 (.blob registerTx),
    ByteVec.ofNat 32 0xabbd0f5166f99b95c0f33127e5fc38c986757f0d9e40d95ffef9ebfedf7d6028),
   (Transaction.preimage sha3 (.blob (tx "test")),digest "test"),
   (Transaction.preimage sha3 (.blob (tx "other")),digest "other"),
   ((entry "test").hyleOutput.preimage sha3,
    ByteVec.ofNat 32 0x0e93eaf84365058d936f32ea2b7b998e2628d329e3acccc58c5a02472cd11863),
   ((entry "other").hyleOutput.preimage sha3,
    ByteVec.ofNat 32 0x51290c29cd7df3cc356a96ad68b4f2cb62be93e279e5f115e64edd42a561f046),
   ((signedBlock "test").consensusProposal.preimage,
    ByteVec.ofNat 32 0x152058c4aded5c45e6c5b36c46c22faa4172e1829870023dacbcce408221b1c4)]

def entryDigests : List (Bytes × H256) :=
  let sha3 := ByteVec.lookup txDigests
  [((entry "test").preimage sha3,
    ByteVec.ofNat 32 0x52c15c6df0bea13e76af7d3bdbff0ed2197290e86c5adea28b13f8c9e01dac4a),
   ((entry "other").preimage sha3,
    ByteVec.ofNat 32 0xfb0d763e360b285d63426a209153eb39cc1e1d86ec64245c22f06d41ccecb8bf)]

def proofDigests : List (Bytes × H256) :=
  let sha3 := ByteVec.lookup (blobDigests++txDigests++entryDigests)
  [(Transaction.preimage sha3 (proofTx "foo" (entry "test")).transactionData,
    ByteVec.ofNat 32 0xabdfd6caf588fbd681b0d65ec406a78902abe4aa2791cf409b00a1b36a164766),
   (Transaction.preimage sha3 (proofTx "foo" (entry "other")).transactionData,
    ByteVec.ofNat 32 0xc793b1939c7985450ca28ae3c859610a2eef0b98bd652aff174ac48e37a061da)]

/-- SHA3-256 at the byte strings that the two blocks lead to. -/
def env : Environment :=
  let digests := blobDigests++txDigests++entryDigests++proofDigests
  { TwoContracts.env with sha3 := ByteVec.lookup digests }

/-- The verifier and the program of `foo` after the block, for the node and for a follower. -/
def views (verifier : Verifier) :
    Option (Verifier × ProgramId) × Option (Option (Verifier × ProgramId)) :=
  let view := fun contracts : Contracts =>
    contracts["foo"]?.map fun contract => (contract.verifier,contract.programId)
  match handleSignedBlock env NodeStateStore.default (signedBlock verifier) with
  | (store,.ok block) => (view store.contracts,
      some (view (block.contractsDiff.apply NodeStateStore.default.contracts)))
  | (store,.error _) => (view store.contracts,none)

theorem views_reregistered :
    views "other"=(some ("other",[2]),some (some ("test",[2]))) ∧
    views "test"=(some ("test",[2]),some (some ("test",[2]))) ∧
      RunKeepsVerifiers env [signedBlock "test"] := by
  decide +kernel

end Reregistered

open Reregistered in
theorem blocksFollowed_test : views "test"=(some ("test",[2]),some (some ("test",[2]))) ∧
    BlocksFollowed env [signedBlock "test"] :=
  ⟨views_reregistered.2.1,blocksFollowed env [signedBlock "test"] views_reregistered.2.2⟩

open Reregistered in
/-- The block does not tell that the contract has another verifier now. -/
theorem not_blocksFollowed : ¬BlocksFollowed env [signedBlock "other"] := by
  intro h
  have followed := h [] (signedBlock "other") [] rfl
  have seen := views_reregistered.1
  unfold views at seen
  split at seen
  · next store block handled =>
    have same := followed store block handled
    obtain ⟨node,follower⟩ := Prod.mk.inj seen
    have stores : handleSignedBlocks env NodeStateStore.default []=NodeStateStore.default := rfl
    rw [stores] at same
    rw [same,node] at follower
    simp at follower
  · simp at seen

end NodeState

end TruthSeeker
