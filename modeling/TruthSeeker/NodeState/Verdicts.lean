import TruthSeeker.NodeState.ContractNames

namespace TruthSeeker

namespace UnsettledBlobTransaction

variable (self : UnsettledBlobTransaction)

/-- The unsettled blobs with their positions, in order. -/
def indexedBlobs : List (BlobIndex × Blob) :=
  self.blobs.toList.map fun entry => (entry.1,entry.2.blob)

/-- The proofs that a blob holds. -/
def HoldsProof (index : BlobIndex) (proof : ProgramId × HyleOutput) : Prop :=
  ∃ metadata,self.blobs[index]?=some metadata ∧ proof∈metadata.possibleProofs

end UnsettledBlobTransaction

namespace NodeState

/-- Which proofs there are for each blob of a transaction. -/
abbrev Proofs := BlobIndex → ProgramId × HyleOutput → Prop

section Verdict
variable (env : Environment) (contracts : Contracts) (proofs : Proofs)

/-- What the proofs decide on the blobs, one blob after the other. A proof that settles fails the
transaction or leads on to the next blob. -/
inductive Decides : ContractChanges → List (BlobIndex × Blob) →
    Except Unit ContractChanges → Prop where
  | done (changes : ContractChanges) : Decides changes [] (.ok changes)
  | failed {changes next : ContractChanges} {index : BlobIndex} {blob : Blob}
      {blobs : List (BlobIndex × Blob)} {proof : ProgramId × HyleOutput}
      (mem : proofs index proof) (failure : proof.2.success=false)
      (processed : processProof env contracts changes blob.contractName proof blob=.ok next) :
      Decides changes ((index,blob)::blobs) (.error ())
  | proven {changes next : ContractChanges} {index : BlobIndex} {blob : Blob}
      {blobs : List (BlobIndex × Blob)} {proof : ProgramId × HyleOutput}
      {verdict : Except Unit ContractChanges}
      (mem : proofs index proof) (success : proof.2.success=true)
      (processed : processProof env contracts changes blob.contractName proof blob=.ok next)
      (rest : Decides next blobs verdict) :
      Decides changes ((index,blob)::blobs) verdict

/-- A blob has at most one output for each program and initial state. -/
def Functional : Prop :=
  ∀ index p q,proofs index p → proofs index q → p.1=q.1 → p.2.initialState=q.2.initialState → p=q

end Verdict

section Process
variable {env : Environment} {contracts : Contracts} {changes next : ContractChanges}
  {name : ContractName} {proof : ProgramId × HyleOutput} {blob : Blob}

theorem Functional.eq {proofs : Proofs} (hf : Functional proofs) {index : BlobIndex}
    {other : ProgramId × HyleOutput} {next' : ContractChanges}
    (hp : proofs index proof) (ho : proofs index other)
    (h : processProof env contracts changes name proof blob=.ok next)
    (h' : processProof env contracts changes name other blob=.ok next') : proof=other := by
  obtain ⟨contract,_,found,state,program,_⟩ := processProof_eq_ok h
  obtain ⟨contract',_,found',state',program',_⟩ := processProof_eq_ok h'
  have same : contract=contract' := Except.ok.inj (found.symm.trans found')
  subst same
  exact hf index proof other hp ho (program.trans program'.symm) (state.trans state'.symm)

end Process

section Relation
variable {env : Environment} {contracts : Contracts} {proofs more : Proofs}
  {changes : ContractChanges} {blobs : List (BlobIndex × Blob)}
  {verdict : Except Unit ContractChanges}

theorem Decides.mono (h : Decides env contracts proofs changes blobs verdict)
    (hm : ∀ index proof,proofs index proof → more index proof) :
    Decides env contracts more changes blobs verdict := by
  induction h with
  | done changes => exact .done changes
  | failed mem failure processed => exact .failed (hm _ _ mem) failure processed
  | proven mem success processed rest ih => exact .proven (hm _ _ mem) success processed ih

theorem Decides.unique (hf : Functional proofs)
    (h : Decides env contracts proofs changes blobs verdict)
    {other : Except Unit ContractChanges}
    (ho : Decides env contracts proofs changes blobs other) : verdict=other := by
  induction h with
  | done changes =>
    cases ho
    rfl
  | failed mem failure processed =>
    cases ho with
    | failed mem' failure' processed' => rfl
    | proven mem' success processed' rest =>
      have same := hf.eq mem mem' processed processed'
      subst same
      rw [failure] at success
      cases success
  | proven mem success processed rest ih =>
    cases ho with
    | failed mem' failure processed' =>
      have same := hf.eq mem mem' processed processed'
      subst same
      rw [failure] at success
      cases success
    | proven mem' success' processed' rest' =>
      have same := hf.eq mem mem' processed processed'
      subst same
      have next := Except.ok.inj (processed.symm.trans processed')
      subst next
      exact ih rest'

/-- Only a proof with a failed output decides for a failure. -/
theorem Decides.exists_failed (h : Decides env contracts proofs changes blobs (.error ())) :
    ∃ index blob proof,(index,blob)∈blobs ∧ proofs index proof ∧ proof.2.success=false := by
  generalize hv : (Except.error () : Except Unit ContractChanges)=verdict at h
  induction h with
  | done changes => cases hv
  | failed mem failure processed => exact ⟨_,_,_,List.mem_cons_self,mem,failure⟩
  | proven mem success processed rest ih =>
    obtain ⟨index,blob,proof,hm,hp,hs⟩ := ih hv
    exact ⟨index,blob,proof,List.mem_cons_of_mem _ hm,hp,hs⟩

end Relation

section Frame
variable {env : Environment} {contracts next : Contracts} {changes last : ContractChanges}

theorem getContract_congr {name : ContractName} (h : next[name]?=contracts[name]?) :
    getContract next changes name=getContract contracts changes name := by
  simp only [getContract,h]

/-- A proof looks at the contract of its blob and at those whose state it reads. -/
theorem processProof_congr {name : ContractName} {proof : ProgramId × HyleOutput} {blob : Blob}
    (h : next[name]?=contracts[name]?)
    (hr : ∀ read ∈ proof.2.stateReads,next[read.1]?=contracts[read.1]?) :
    processProof env next changes name proof blob=
      processProof env contracts changes name proof blob := by
  have reads : proof.2.stateReads.forM (checkStateRead env next changes)=
      proof.2.stateReads.forM (checkStateRead env contracts changes) := by
    generalize proof.2.stateReads=reads at hr
    induction reads with
    | nil => rfl
    | cons read reads ih =>
      have head : checkStateRead env next changes read=
          checkStateRead env contracts changes read := by
        unfold checkStateRead
        rw [getContract_congr (hr read List.mem_cons_self)]
      have tail := ih fun r hm => hr r (List.mem_cons_of_mem _ hm)
      unfold List.forM
      rw [head,tail]
  unfold processProof
  rw [getContract_congr h,reads]

theorem Decides.frame {proofs : Proofs} {blobs : List (BlobIndex × Blob)}
    {verdict : Except Unit ContractChanges}
    (h : Decides env contracts proofs changes blobs verdict)
    (hb : ∀ entry ∈ blobs,next[entry.2.contractName]?=contracts[entry.2.contractName]?)
    (hr : ∀ index proof,proofs index proof → ∀ read ∈ proof.2.stateReads,
      next[read.1]?=contracts[read.1]?) :
    Decides env next proofs changes blobs verdict := by
  induction h with
  | done changes => exact .done changes
  | failed mem failure processed =>
    apply Decides.failed mem failure
    rw [processProof_congr (hb _ List.mem_cons_self) (hr _ _ mem)]
    exact processed
  | proven mem success processed rest ih =>
    have tail := ih fun entry he => hb entry (List.mem_cons_of_mem _ he)
    refine Decides.proven mem success ?_ tail
    rw [processProof_congr (hb _ List.mem_cons_self) (hr _ _ mem)]
    exact processed

/-- The changes are of the allowed contracts only, and delete none. -/
def Touches (allowed : ContractName → Prop) (changes : ContractChanges) : Prop :=
  ∀ (name : ContractName) (data : ModifiedContractData),changes[name]?=some data →
    allowed name ∧ data.1.isSome

section Touched
variable {allowed : ContractName → Prop}

theorem Touches.empty : Touches allowed ∅ := by
  intro name data h
  simp at h

theorem Touches.insert (h : Touches allowed changes) {name : ContractName}
    {data : ModifiedContractData} (hn : allowed name) (hd : data.1.isSome) :
    Touches allowed (changes.insert name data) := by
  intro other found hf
  rw [Std.ExtTreeMap.getElem?_insert] at hf
  split_ifs at hf with heq
  · obtain rfl := Std.LawfulEqOrd.eq_of_compare heq
    obtain rfl := Option.some.inj hf
    exact ⟨hn,hd⟩
  · exact h other found hf

/-- An effect that deletes nothing registers its contract. -/
theorem Touches.applyEffect (h : Touches allowed changes) {contract : Contract} {blob : Blob}
    {effect : OnchainEffect} (hn : allowed (effectName effect))
    (hd : ∀ name,effect≠.deleteContract name)
    (he : NodeState.applyEffect env contract blob changes effect=.ok last) :
    Touches allowed last := by
  cases effect with
  | deleteContract name => exact absurd rfl (hd name)
  | registerContract effect =>
    unfold NodeState.applyEffect at he
    obtain ⟨_,_,he⟩ := Outcome.bind_eq_ok.mp he
    split at he
    · cases he
    · obtain rfl := Except.ok.inj he
      exact h.insert hn rfl

theorem Touches.applyState (h : Touches allowed changes) {contract : Contract}
    {nextState : StateCommitment} (hn : allowed contract.name) :
    Touches allowed (NodeState.applyState contract nextState changes) := by
  apply h.insert hn
  split
  · rfl
  · next fields effects hf => exact (h _ _ hf).2
  · rfl

theorem Touches.processProof (hc : WellNamed contracts) (hw : WellNamedChanges changes)
    (h : Touches allowed changes) {name : ContractName} {proof : ProgramId × HyleOutput}
    {blob : Blob} (hn : allowed name)
    (he : ∀ effect ∈ proof.2.onchainEffects,
      allowed (effectName effect) ∧ ∀ name,effect≠.deleteContract name)
    (hp : NodeState.processProof env contracts changes name proof blob=.ok last) :
    Touches allowed last := by
  obtain ⟨contract,mid,found,_,_,reads,effects,rfl⟩ := processProof_eq_ok hp
  have owner := (wellNamed_getContract hc hw found).1
  apply Touches.applyState _ (owner.symm ▸ hn)
  generalize proof.2.onchainEffects=list at he effects
  clear found hw hp reads
  induction list generalizing changes with
  | nil =>
    obtain rfl := Except.ok.inj effects
    exact h
  | cons effect list ih =>
    rw [List.foldlM_cons] at effects
    obtain ⟨next,first,rest⟩ := Outcome.bind_eq_ok.mp effects
    obtain ⟨named,kept⟩ := he effect List.mem_cons_self
    exact ih (h.applyEffect named kept first) (fun e hm => he e (List.mem_cons_of_mem _ hm)) rest

/-- What a success changes: the contracts of the blobs and those that the proofs register. -/
theorem Decides.touches {proofs : Proofs} {blobs : List (BlobIndex × Blob)}
    (hc : WellNamed contracts)
    (h : Decides env contracts proofs changes blobs (.ok last))
    (hb : ∀ entry ∈ blobs,allowed entry.2.contractName)
    (he : ∀ index proof,proofs index proof → ∀ effect ∈ proof.2.onchainEffects,
      allowed (effectName effect) ∧ ∀ name,effect≠.deleteContract name)
    (hw : WellNamedChanges changes) (ht : Touches allowed changes) :
    WellNamedChanges last ∧ Touches allowed last := by
  generalize hv : (Except.ok last : Except Unit ContractChanges)=verdict at h
  induction h with
  | done changes =>
    obtain rfl := Except.ok.inj hv
    exact ⟨hw,ht⟩
  | failed mem failure processed => cases hv
  | proven mem success processed rest ih =>
    exact ih (fun entry hm => hb entry (List.mem_cons_of_mem _ hm))
      (wellNamed_processProof hc hw processed)
      (ht.processProof hc hw (hb _ List.mem_cons_self) (he _ _ mem) processed) hv

end Touched

end Frame

section Attempts
variable {env : Environment} {contracts : Contracts} {changes : ContractChanges}

/-- The result of the proofs comes from one that settles. -/
theorem tryProofs_eq_some {carryOn : ContractChanges → Nat → Attempt} {blob : Blob}
    {held : List (ProgramId × HyleOutput)} {start : Nat} {events : List TransactionStateEvent}
    {result : Except Unit SettlementResult}
    (h : tryProofs env contracts carryOn changes blob start held=(events,some result)) :
    ∃ proof ∈ held,∃ next,processProof env contracts changes blob.contractName proof blob=.ok next ∧
      (proof.2.success=false ∧ result=.error () ∨
        proof.2.success=true ∧ ∃ index events,carryOn next index=(events,some result)) := by
  induction held generalizing start events with
  | nil => simp [tryProofs] at h
  | cons proof held ih =>
    have later : ∀ events,tryProofs env contracts carryOn changes blob (start+1) held=
        (events,some result) → ∃ found ∈ proof::held,∃ next,
          processProof env contracts changes blob.contractName found blob=.ok next ∧
          (found.2.success=false ∧ result=.error () ∨
            found.2.success=true ∧ ∃ index events,carryOn next index=(events,some result)) := by
      intro events ht
      obtain ⟨found,hm,rest⟩ := ih ht
      exact ⟨found,List.mem_cons_of_mem _ hm,rest⟩
    unfold tryProofs at h
    cases hp : processProof env contracts changes blob.contractName proof blob with
    | error msg =>
      simp only [hp] at h
      obtain ⟨_,tail⟩ := Prod.mk.inj h
      exact later _ (Prod.ext rfl tail)
    | ok next =>
      simp only [hp] at h
      by_cases hs : proof.2.success=true
      · rw [if_neg (not_not.mpr hs)] at h
        cases hc : carryOn next start with
        | mk before settled =>
          simp only [hc] at h
          cases settled with
          | none =>
            obtain ⟨_,tail⟩ := Prod.mk.inj h
            exact later _ (Prod.ext rfl tail)
          | some found =>
            obtain ⟨_,same⟩ := Prod.mk.inj h
            exact ⟨proof,List.mem_cons_self,next,hp,Or.inr ⟨hs,start,before,by rw [hc,same]⟩⟩
      · rw [if_pos hs] at h
        obtain ⟨_,same⟩ := Prod.mk.inj h
        exact ⟨proof,List.mem_cons_self,next,hp,
          Or.inl ⟨by simpa using hs,(Option.some.inj same).symm⟩⟩

/-- If one of the proofs settles and no other one does, the proofs have its result. -/
theorem exists_tryProofs {carryOn : ContractChanges → Nat → Attempt} {blob : Blob}
    {held : List (ProgramId × HyleOutput)} {proof : ProgramId × HyleOutput}
    {next : ContractChanges} (good : Except Unit SettlementResult → Prop) (hm : proof∈held)
    (hp : processProof env contracts changes blob.contractName proof blob=.ok next)
    (only : ∀ other ∈ held,∀ next',
      processProof env contracts changes blob.contractName other blob=.ok next' → other=proof)
    (hr : proof.2.success=false ∧ good (.error ()) ∨
      proof.2.success=true ∧ ∀ index,∃ result,(carryOn next index).2=some result ∧ good result)
    (start : Nat) :
    ∃ result,(tryProofs env contracts carryOn changes blob start held).2=some result ∧
      good result := by
  induction held generalizing start with
  | nil => simp at hm
  | cons first held ih =>
    unfold tryProofs
    cases hf : processProof env contracts changes blob.contractName first blob with
    | error msg =>
      have other : proof∈held := by
        obtain rfl|tail := List.mem_cons.mp hm
        · rw [hp] at hf
          cases hf
        · exact tail
      exact ih other (fun p hp => only p (List.mem_cons_of_mem _ hp)) (start+1)
    | ok next' =>
      have same := only first List.mem_cons_self next' hf
      subst same
      have eq := Except.ok.inj (hp.symm.trans hf)
      subst eq
      obtain ⟨failure,ok⟩|⟨success,carried⟩ := hr
      · exact ⟨.error (),by simp [failure],ok⟩
      · obtain ⟨result,eq,ok⟩ := carried start
        have whole : carryOn next start=((carryOn next start).1,some result) := Prod.ext rfl eq
        refine ⟨result,?_,ok⟩
        simp only [success,not_true_eq_false,if_false]
        rw [whole]

section Blobs
variable {proofs : Proofs} {entries : List (BlobIndex × UnsettledBlobMetadata)}

theorem decides_of_settleBlobsRecursively {indices : List Nat}
    {events : List TransactionStateEvent} {result : Except Unit SettlementResult}
    (held : ∀ entry ∈ entries,∀ proof ∈ entry.2.possibleProofs,proofs entry.1 proof)
    (other : ∀ entry ∈ entries,entry.2.blob.contractName≠"hyle")
    (h : settleBlobsRecursively env contracts changes (entries.map Prod.snd) indices=
      (events,some result)) :
    Decides env contracts proofs changes (entries.map fun entry => (entry.1,entry.2.blob))
      (result.map SettlementResult.contractChanges) := by
  induction entries generalizing changes indices events with
  | nil =>
    obtain ⟨_,same⟩ := Prod.mk.inj h
    obtain rfl := Option.some.inj same
    exact .done changes
  | cons entry entries ih =>
    rw [List.map_cons] at h
    unfold settleBlobsRecursively at h
    rw [if_neg (other entry List.mem_cons_self)] at h
    obtain ⟨proof,hm,next,hp,verdict⟩ := tryProofs_eq_some h
    have mem := held entry List.mem_cons_self proof hm
    obtain ⟨failure,rfl⟩|⟨success,index,events,carried⟩ := verdict
    · exact .failed mem failure hp
    · apply Decides.proven mem success hp
      exact ih (fun e he => held e (List.mem_cons_of_mem _ he))
        (fun e he => other e (List.mem_cons_of_mem _ he)) carried

theorem settleBlobsRecursively_of_decides {verdict : Except Unit ContractChanges}
    (held : ∀ entry ∈ entries,∀ proof,proof∈entry.2.possibleProofs ↔ proofs entry.1 proof)
    (other : ∀ entry ∈ entries,entry.2.blob.contractName≠"hyle") (hf : Functional proofs)
    (h : Decides env contracts proofs changes
      (entries.map fun entry => (entry.1,entry.2.blob)) verdict) (indices : List Nat) :
    ∃ result,(settleBlobsRecursively env contracts changes (entries.map Prod.snd) indices).2=
      some result ∧ result.map SettlementResult.contractChanges=verdict := by
  induction entries generalizing changes indices with
  | nil =>
    cases h
    exact ⟨_,rfl,rfl⟩
  | cons entry entries ih =>
    rw [List.map_cons] at h ⊢
    unfold settleBlobsRecursively
    rw [if_neg (other entry List.mem_cons_self)]
    have listed := held entry List.mem_cons_self
    have only : ∀ {proof next},proofs entry.1 proof →
        processProof env contracts changes entry.2.blob.contractName proof entry.2.blob=.ok next →
        ∀ other ∈ entry.2.possibleProofs,∀ next',
          processProof env contracts changes entry.2.blob.contractName other entry.2.blob=
            .ok next' → other=proof :=
      fun mem hp other ho _ h' => hf.eq ((listed other).mp ho) mem h' hp
    cases h with
    | failed mem failure hp =>
      exact exists_tryProofs (fun result => result.map SettlementResult.contractChanges=.error ())
        ((listed _).mpr mem) hp (only mem hp) (Or.inl ⟨failure,rfl⟩) 0
    | proven mem success hp rest =>
      refine exists_tryProofs (fun result => result.map SettlementResult.contractChanges=verdict)
        ((listed _).mpr mem) hp (only mem hp) (Or.inr ⟨success,?_⟩) 0
      intro index
      exact ih (fun e he => held e (List.mem_cons_of_mem _ he))
        (fun e he => other e (List.mem_cons_of_mem _ he)) rest (indices++[index])

end Blobs

end Attempts

end NodeState

end TruthSeeker
