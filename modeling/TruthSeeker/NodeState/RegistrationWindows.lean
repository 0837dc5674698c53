import TruthSeeker.NodeState.TldAuthority

namespace TruthSeeker.NodeState

/-- A contract that a blob of a settled transaction registers, with the contract whose proof
carries the effect, none for a blob to `hyle`, and the changes before and after it. -/
structure Registration where
  contractName : ContractName
  timeoutWindow : Option TimeoutWindow
  owner : Option Contract
  before : ContractChanges
  after : ContractChanges

namespace Registration

variable (contracts : Contracts) (self : Registration)

/-- The window of the contract if it exists, or else the default. -/
def expected : TimeoutWindow :=
  match getContract contracts self.before self.contractName with
  | .ok existing => existing.timeoutWindow
  | .error _ => TimeoutWindow.default

/-- The window that the registration leaves. -/
def left : Option TimeoutWindow :=
  (getContract contracts self.after self.contractName).toOption.map Contract.timeoutWindow

/-- The contract ends up with the window that is expected where the registration has none. -/
def KeepsWindow : Prop := self.left contracts=some (self.expected contracts)

/-- The fallback of the path is right: `hyle` has the default if it is registered anew, and the
owner has the window that is expected. -/
def WindowFits : Prop :=
  match self.owner with
  | none => self.contractName="hyle" → ∀ existing,contracts[self.contractName]?=some existing →
      existing.timeoutWindow=TimeoutWindow.default
  | some owner => owner.timeoutWindow=self.expected contracts

end Registration

section Listed
variable (env : Environment) (contracts : Contracts)

/-- The registrations among the effects of one proof. -/
def effectRegistrations (owner : Contract) (blob : Blob) :
    ContractChanges → List OnchainEffect → List Registration
  | _,[] => []
  | changes,effect::effects =>
      match applyEffect env owner blob changes effect with
      | .error _ => []
      | .ok next =>
          let later := effectRegistrations owner blob next effects
          match effect with
          | .registerContract effect =>
              ⟨effect.contractName,effect.timeoutWindow,some owner,changes,next⟩::later
          | .deleteContract _ => later

def BlobStep.registrations (step : BlobStep) : List Registration :=
  let blob := step.metadata.blob
  match step.proof with
  | none =>
      match BlobData.parse RegisterContractAction blob.data with
      | some reg => [⟨reg.contractName,reg.timeoutWindow,none,step.before,step.after⟩]
      | none => []
  | some proof =>
      match getContract contracts step.before blob.contractName with
      | .ok owner => effectRegistrations env owner blob step.before proof.2.onchainEffects
      | .error _ => []

/-- All registrations of the transaction that the call settles. -/
def Moment.registrations (self : Moment) : List Registration :=
  (self.steps env).flatMap (BlobStep.registrations env self.work.store.contracts)

end Listed

section Windows
variable {env : Environment} {contracts : Contracts} {changes next : ContractChanges}

theorem getContract_insert (name : ContractName) (contract : Contract)
    (fields : ModifiedContractFields) (sideEffects : List SideEffect) :
    getContract contracts (changes.insert name (some contract,fields,sideEffects)) name=
      .ok contract := by
  simp [getContract]

/-- What a registration leaves is the contract with its own window or the fallback. -/
theorem Registration.keepsWindow_insert {self : Registration} {contract : Contract}
    {fields : ModifiedContractFields} {sideEffects : List SideEffect}
    (h : self.after=self.before.insert self.contractName (some contract,fields,sideEffects)) :
    self.KeepsWindow contracts ↔ contract.timeoutWindow=self.expected contracts := by
  unfold KeepsWindow left
  rw [h,getContract_insert]
  exact Option.some_inj

theorem keepsWindow_handleRegisterBlob {reg : RegisterContractAction}
    (h : HyleTld.handleRegisterBlob env contracts changes reg=.ok next)
    (hw : reg.timeoutWindow=none) :
    let registration : Registration := ⟨reg.contractName,reg.timeoutWindow,none,changes,next⟩
    registration.KeepsWindow contracts ↔ registration.WindowFits contracts := by
  intro registration
  unfold HyleTld.handleRegisterBlob at h
  obtain ⟨_,_,h⟩ := Outcome.bind_eq_ok.mp h
  split_ifs at h with taken
  obtain ⟨known,fresh⟩ := not_or.mp taken
  rw [Std.ExtTreeMap.contains_eq_isSome_getElem?,Option.not_isSome_iff_eq_none] at fresh
  rw [Registration.keepsWindow_insert (Except.ok.inj h).symm]
  have found : registration.expected contracts=
      (contracts[reg.contractName]?.map (·.timeoutWindow)).getD TimeoutWindow.default := by
    simp only [Registration.expected,getContract,registration,fresh]
    cases contracts[reg.contractName]? with
    | none => rfl
    | some existing => rfl
  rw [found,hw]
  show TimeoutWindow.default=_ ↔ (reg.contractName="hyle" → _)
  cases hc : contracts[reg.contractName]? with
  | none => simp
  | some existing =>
    have hyle : reg.contractName="hyle" := by
      by_contra other
      refine known ⟨other,?_⟩
      rw [Std.ExtTreeMap.contains_eq_isSome_getElem?,hc]
      rfl
    constructor
    · intro same _ found hf
      obtain rfl := Option.some.inj hf
      exact same.symm
    · intro fits
      exact (fits hyle existing rfl).symm

theorem keepsWindow_applyEffect {owner : Contract} {blob : Blob}
    {effect : RegisterContractEffect}
    (h : applyEffect env owner blob changes (.registerContract effect)=.ok next)
    (hw : effect.timeoutWindow=none) :
    let registration : Registration :=
      ⟨effect.contractName,effect.timeoutWindow,some owner,changes,next⟩
    registration.KeepsWindow contracts ↔ registration.WindowFits contracts := by
  intro registration
  unfold applyEffect at h
  obtain ⟨_,_,h⟩ := Outcome.bind_eq_ok.mp h
  split at h
  · cases h
  · rw [Registration.keepsWindow_insert (Except.ok.inj h).symm,hw]
    exact Iff.rfl

theorem exists_of_mem_effectRegistrations {owner : Contract} {blob : Blob}
    {effects : List OnchainEffect} {registration : Registration}
    (h : registration∈effectRegistrations env owner blob changes effects) :
    ∃ effect before after,
      applyEffect env owner blob before (.registerContract effect)=.ok after ∧
      registration=⟨effect.contractName,effect.timeoutWindow,some owner,before,after⟩ := by
  induction effects generalizing changes with
  | nil => cases h
  | cons effect effects ih =>
    unfold effectRegistrations at h
    split at h
    · cases h
    · next after applied =>
      cases effect with
      | deleteContract name => exact ih h
      | registerContract effect =>
        obtain rfl|later := List.mem_cons.mp h
        · exact ⟨effect,changes,after,applied,rfl⟩
        · exact ih later

/-- No registration of a proof whose effects are applied is left out. -/
theorem map_effectRegistrations {owner : Contract} {blob : Blob} {effects : List OnchainEffect}
    (h : effects.foldlM (applyEffect env owner blob) changes=.ok next) :
    (effectRegistrations env owner blob changes effects).map
        (fun registration => (registration.contractName,registration.timeoutWindow))=
      effects.filterMap fun
        | .registerContract effect => some (effect.contractName,effect.timeoutWindow)
        | .deleteContract _ => none := by
  induction effects generalizing changes with
  | nil => rfl
  | cons effect effects ih =>
    rw [List.foldlM_cons] at h
    obtain ⟨mid,applied,rest⟩ := Outcome.bind_eq_ok.mp h
    unfold effectRegistrations
    rw [applied]
    cases effect with
    | deleteContract name => exact ih rest
    | registerContract effect => exact congrArg (List.cons _) (ih rest)

/-- Each registration without a window in a settled transaction leaves the window that is
expected if and only if the fallback of its path fits. -/
theorem keepsWindow_iff (env : Environment) (moment : Moment) :
    ∀ registration ∈ moment.registrations env,registration.timeoutWindow=none →
      (registration.KeepsWindow moment.work.store.contracts ↔
        registration.WindowFits moment.work.store.contracts) := by
  intro registration hr hw
  obtain ⟨step,hs,hr⟩ := List.mem_flatMap.mp hr
  obtain ⟨tx,result,settled⟩ := Moment.exists_settled hs
  have applied := Moment.applied settled
  unfold BlobStep.registrations at hr
  dsimp only at hr
  split at hr
  · next hp =>
    obtain ⟨_,_,handled⟩ := applied.of_none hs hp
    split at hr
    · next reg parsed =>
      obtain rfl := List.mem_singleton.mp hr
      unfold HyleTld.handleBlobForHyleTld at handled
      rw [parsed] at handled
      exact keepsWindow_handleRegisterBlob handled hw
    · cases hr
  · split at hr
    · obtain ⟨effect,before,after,effected,rfl⟩ := exists_of_mem_effectRegistrations hr
      exact keepsWindow_applyEffect effected hw
    · cases hr

end Windows

namespace ChildWindow

/-- A contract whose transactions time out early. -/
def parent : Contract := ⟨"parent",[1],[1],"test",.timeout 5⟩

/-- A registration below the contract, without a window. -/
def action : RegisterContractAction := ⟨"test",[2],[5],"child.parent",none,none⟩

def blob : Blob :=
  ⟨"parent",(Borsh.ser (⟨none,none,action⟩ : StructuredBlobData RegisterContractAction)).getD []⟩

def proof : ProgramId × HyleOutput :=
  ([1],{ TwoContracts.output with
    initialState := [1]
    nextState := [1]
    identity := "bob@parent"
    txBlobCount := 1
    onchainEffects := [.registerContract action.effect] })

def tx : UnsettledBlobTransaction where
  identity := "bob@parent"
  parentDpHash := ""
  hash := "tx"
  txContext := ⟨[],"",1,0,0⟩
  blobsHash := ∅
  blobs := (∅ : Std.ExtTreeMap BlobIndex UnsettledBlobMetadata).insert 0 ⟨blob,[proof]⟩

/-- The proven transaction is settled where it is the only one. -/
def moment : Moment where
  order := []
  work :=
    ⟨{ NodeStateStore.default with
        contracts := NodeStateStore.default.contracts.insert "parent" parent
        unsettledTransactions := ((OrderedTxMap.empty.add tx).map Prod.fst).getD .empty },
      startBlock TwoContracts.env (TwoContracts.block [])⟩
  call := .settle "tx"

end ChildWindow

/-- The names of the registrations without a window, with the windows before and after them. -/
def windowsLeft (env : Environment) (moment : Moment) :
    List (ContractName × TimeoutWindow × Option TimeoutWindow) :=
  let contracts := moment.work.store.contracts
  ((moment.registrations env).filter fun r => r.timeoutWindow=none).map fun r =>
    (r.contractName,r.expected contracts,r.left contracts)

theorem exists_of_mem_windowsLeft {env : Environment} {moment : Moment} {name : ContractName}
    {window : TimeoutWindow} {left : Option TimeoutWindow}
    (h : (name,window,left)∈windowsLeft env moment) :
    ∃ registration ∈ moment.registrations env,registration.timeoutWindow=none ∧
      registration.expected moment.work.store.contracts=window ∧
      registration.left moment.work.store.contracts=left := by
  obtain ⟨registration,hr,eq⟩ := List.mem_map.mp h
  obtain ⟨hr,hw⟩ := List.mem_filter.mp hr
  obtain ⟨_,eq⟩ := Prod.mk.inj eq
  obtain ⟨expected,found⟩ := Prod.mk.inj eq
  exact ⟨registration,hr,of_decide_eq_true hw,expected,found⟩

/-- Anybody registers `foo`, anybody registers `hyle` anew, and a proof for a contract registers
another one below it. -/
theorem windowsLeft_runs :
    (moments Mallory.env [Mallory.signedBlock "foo"]).flatMap (windowsLeft Mallory.env)=
      [("foo",.timeout 100,some (.timeout 100))] ∧
    (moments Mallory.env [Mallory.signedBlock "hyle"]).flatMap (windowsLeft Mallory.env)=
      [("hyle",.noTimeout,some (.timeout 100))] ∧
    windowsLeft TwoContracts.env ChildWindow.moment=
      [("child.parent",.timeout 100,some (.timeout 5))] := by
  decide +kernel

open Mallory in
theorem keepsWindow_iff_foo :
    ∃ moment ∈ moments env [signedBlock "foo"],∃ registration ∈ moment.registrations env,
      registration.timeoutWindow=none ∧
      (registration.KeepsWindow moment.work.store.contracts ↔
        registration.WindowFits moment.work.store.contracts) := by
  have listed : ("foo",.timeout 100,some (.timeout 100))∈
      (moments env [signedBlock "foo"]).flatMap (windowsLeft env) := by
    rw [windowsLeft_runs.1]
    exact List.mem_singleton_self _
  obtain ⟨moment,hm,left⟩ := List.mem_flatMap.mp listed
  obtain ⟨registration,hr,hw,_⟩ := exists_of_mem_windowsLeft left
  exact ⟨moment,hm,registration,hr,hw,keepsWindow_iff env moment registration hr hw⟩

/-- The contract `hyle` gets a timeout, and a new contract the window of the one above it. -/
theorem not_keepsWindow :
    (∃ moment ∈ moments Mallory.env [Mallory.signedBlock "hyle"],
      ∃ registration ∈ moment.registrations Mallory.env,registration.timeoutWindow=none ∧
        ¬registration.KeepsWindow moment.work.store.contracts) ∧
    ∃ registration ∈ ChildWindow.moment.registrations TwoContracts.env,
      registration.timeoutWindow=none ∧
      ¬registration.KeepsWindow ChildWindow.moment.work.store.contracts := by
  have differs : ∀ {registration : Registration} {contracts : Contracts}
      {window found : TimeoutWindow},registration.expected contracts=window →
        registration.left contracts=some found → found≠window →
          ¬registration.KeepsWindow contracts := by
    intro registration contracts window found expected left apart kept
    unfold Registration.KeepsWindow at kept
    rw [expected,left] at kept
    exact apart (Option.some.inj kept)
  constructor
  · have listed : ("hyle",.noTimeout,some (.timeout 100))∈
        (moments Mallory.env [Mallory.signedBlock "hyle"]).flatMap (windowsLeft Mallory.env) := by
      rw [windowsLeft_runs.2.1]
      exact List.mem_singleton_self _
    obtain ⟨moment,hm,left⟩ := List.mem_flatMap.mp listed
    obtain ⟨registration,hr,hw,expected,left⟩ := exists_of_mem_windowsLeft left
    exact ⟨moment,hm,registration,hr,hw,differs expected left (by decide)⟩
  · have listed : ("child.parent",.timeout 100,some (.timeout 5))∈
        windowsLeft TwoContracts.env ChildWindow.moment := by
      rw [windowsLeft_runs.2.2]
      exact List.mem_singleton_self _
    obtain ⟨registration,hr,hw,expected,left⟩ := exists_of_mem_windowsLeft listed
    exact ⟨registration,hr,hw,differs expected left (by decide)⟩

end TruthSeeker.NodeState
