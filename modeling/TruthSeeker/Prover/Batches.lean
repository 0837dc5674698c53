import TruthSeeker.Model.Actions
import TruthSeeker.Prover.AutoProver

namespace TruthSeeker.Prover

open Sdk Borsh

variable {Contract Program : Type}

section Assumptions
variable (H : TxExecutorHandler Contract)

/-- Metadata that were built from the contract, with others merged into them. -/
inductive Represents : Bytes → Contract → Prop where
  | built {contract : Contract} {blob : Blob} {metadata : Bytes}
      (h : H.buildCommitmentMetadata contract blob=.ok metadata) : Represents metadata contract
  | merged {base contract : Contract} {initial next metadata : Bytes}
      (hi : Represents initial base)
      (h : H.mergeCommitmentMetadata contract initial next=.ok metadata) :
      Represents metadata base

/-- The state in which outputs from the given state end. -/
def ending (start : StateCommitment) (outputs : List HyleOutput) : StateCommitment :=
  (outputs.getLast?.map HyleOutput.nextState).getD start

variable (Z : TransactionalZkContract Program) (quote : String → String) [Borsh Program]

/-- The executor and the circuit have the same output for one blob, and report the states that
they go through. -/
structure Agrees : Prop where
  executed : ∀ {contract next : Contract} {calldata : Calldata} {output : HyleOutput},
    H.handle contract calldata=.ok (output,next) →
      output.initialState=H.getStateCommitment contract ∧
      output.nextState=H.getStateCommitment (if output.success then next else contract)
  settles : ∀ {base : Contract} {metadata : Bytes} {calldatas : List Calldata}
    {outputs : List HyleOutput},Represents H metadata base →
      Guest.execute Z quote metadata calldatas=.ok outputs →
        Chained (H.getStateCommitment base) outputs
  decodes : ∀ {contract : Contract} {blob : Blob} {metadata : Bytes},
    H.buildCommitmentMetadata contract blob=.ok metadata →
      Guest.execute Z quote metadata []=.ok []
  single : ∀ {contract next : Contract} {blob : Blob} {metadata : Bytes} {calldata : Calldata}
    {output : HyleOutput},H.buildCommitmentMetadata contract blob=.ok metadata →
      calldata.blobs.get calldata.index=some blob →
      H.handle contract calldata=.ok (output,next) →
        Guest.execute Z quote metadata [calldata]=.ok [output]

/-- Merged metadata prove what the first ones prove, and the next blob in a state with the
commitment in which that ends. -/
structure Transparent : Prop where
  keeps : ∀ {base contract : Contract} {initial next metadata : Bytes} {calldatas : List Calldata}
    {outputs : List HyleOutput},Represents H initial base →
      H.mergeCommitmentMetadata contract initial next=.ok metadata →
      Guest.execute Z quote initial calldatas=.ok outputs →
        Guest.execute Z quote metadata calldatas=.ok outputs
  extends_ : ∀ {base contract after : Contract} {blob : Blob} {initial next metadata : Bytes}
    {calldatas : List Calldata} {calldata : Calldata} {outputs : List HyleOutput}
    {output : HyleOutput},Represents H initial base →
      Guest.execute Z quote initial calldatas=.ok outputs →
      ending (H.getStateCommitment base) outputs=H.getStateCommitment contract →
      H.buildCommitmentMetadata contract blob=.ok next →
      H.mergeCommitmentMetadata contract initial next=.ok metadata →
      calldata.blobs.get calldata.index=some blob →
      H.handle contract calldata=.ok (output,after) →
        Guest.execute Z quote metadata (calldatas++[calldata])=.ok (outputs++[output])

end Assumptions

section Definitions
variable (ctx : AutoProverCtx Contract) (H : TxExecutorHandler Contract)

/-- Each transaction of which a blob gets into the batch is executed from a state with the
commitment in which the blobs before it leave the circuit. -/
def Resumes (store : AutoProverStore Contract) (progress : Progress Contract) :
    List ProvableTx → Prop
  | [] => True
  | tx::rest =>
      ∀ contract ∈ store.getStateOfPrevTx ctx.defaultState (tx.2.1.hashed ctx.sha3),
        ∀ error last after,AutoProver.executeBlobs ctx H tx.2.1 tx.2.2 tx.1 contract progress=
          .ok (error,last,after) →
            (after.calldatas≠progress.calldatas → ∀ circuit ∈ progress.circuit,
              H.getStateCommitment circuit.2=H.getStateCommitment contract) ∧
            Resumes (store.record (tx.2.1.hashed ctx.sha3) (error.elim last fun _ => contract))
              after rest

/-- The metadata of one blob, merged into those of the batch. -/
def Merges (contract : Contract) (progress : Progress Contract) (metadata merged : Bytes) : Prop :=
  progress.commitmentMetadata=none ∧ merged=metadata ∨
    ∃ initial,progress.commitmentMetadata=some initial ∧
      H.mergeCommitmentMetadata contract initial metadata=.ok merged

/-- The metadata are those of the contract from which the circuit starts, and the outputs end in
the state that it has reached. -/
inductive Ready : Progress Contract → Prop where
  | empty : Ready .empty
  | started {metadata : Bytes} {base reached : Contract} {calldatas : List Calldata}
      {outputs : List HyleOutput} (hr : Represents H metadata base)
      (he : ending (H.getStateCommitment base) outputs=H.getStateCommitment reached) :
      Ready ⟨some metadata,calldatas,outputs,some (base,reached)⟩

variable (Z : TransactionalZkContract Program) (quote : String → String) [Borsh Program]

/-- The circuit has the outputs that the executor returned. -/
def Proves (progress : Progress Contract) : Prop :=
  ∀ metadata,progress.commitmentMetadata=some metadata →
    Guest.execute Z quote metadata progress.calldatas=.ok progress.outputs

/-- What the blobs of a transaction add to the batch when they are executed from the contract. -/
structure Advances (contract : Contract) (progress after : Progress Contract) : Prop where
  ready : Ready H after
  added : ∃ calldatas outputs,after.calldatas=progress.calldatas++calldatas ∧
    after.outputs=progress.outputs++outputs ∧ (calldatas=[] ↔ outputs=[]) ∧
      ∀ output ∈ outputs.head?,output.initialState=H.getStateCommitment contract
  base : ∀ circuit ∈ progress.circuit,∃ reached,after.circuit=some (circuit.1,reached)
  proves : Proves Z quote progress →
    (after.calldatas≠progress.calldatas → ∀ circuit ∈ progress.circuit,
      H.getStateCommitment circuit.2=H.getStateCommitment contract) → Proves Z quote after

end Definitions

theorem ending_concat {start : StateCommitment} {outputs : List HyleOutput} {output : HyleOutput} :
    ending start (outputs++[output])=output.nextState := by
  simp [ending]

section Execution
variable {ctx : AutoProverCtx Contract} {H : TxExecutorHandler Contract} {tx : BlobTransaction}
  {txCtx : TxContext} {index : BlobIndex} {contract next : Contract}
  {progress after : Progress Contract} {error : Option String}

/-- A blob is left out, or only its metadata are merged, or it is executed. -/
theorem executeBlob_cases
    (h : AutoProver.executeBlob ctx H tx txCtx index contract progress=.ok (error,next,after)) :
    (after=progress ∧ error≠none) ∨
    ∃ blob metadata merged,tx.blobs[index.toNat]?=some blob ∧
      H.buildCommitmentMetadata contract blob=.ok metadata ∧
      Merges H contract progress metadata merged ∧
      ((after=progress.merged contract merged ∧ error≠none) ∨
        ∃ output,H.handle contract (AutoProver.calldata ctx tx txCtx index)=.ok (output,next) ∧
          after=(progress.merged contract merged).push contract next
            (AutoProver.calldata ctx tx txCtx index) output ∧
          (error=none → output.success=true)) := by
  obtain ⟨blob,found,h⟩ := Outcome.bind_eq_ok.mp h
  rw [Outcome.fromOption_eq_ok] at found
  obtain ⟨built,hb,h⟩ := Outcome.bind_eq_ok.mp h
  obtain ⟨metadata,hm,rfl⟩|⟨message,_,rfl⟩ := Outcome.caught_eq_ok.mp hb
  · obtain ⟨merged,merges,h⟩ := Outcome.bind_eq_ok.mp h
    refine Or.inr ⟨blob,metadata,merged,found,hm,?_,?_⟩
    · cases first : progress.commitmentMetadata with
      | none =>
        rw [first] at merges
        exact Or.inl ⟨first,(Except.ok.inj merges).symm⟩
      | some initial =>
        rw [first,AutoProver.mergeMetadata] at merges
        split at merges
        · cases merges
        · exact Or.inr ⟨initial,first,merges⟩
    · obtain ⟨handled,hh,h⟩ := Outcome.bind_eq_ok.mp h
      obtain ⟨⟨output,after⟩,ok,rfl⟩|⟨message,_,rfl⟩ := Outcome.caught_eq_ok.mp hh
      · cases h
        refine Or.inr ⟨output,ok,rfl,?_⟩
        intro none
        by_contra failed
        rw [if_neg failed] at none
        cases none
      · cases h
        exact Or.inl ⟨rfl,nofun⟩
  · cases h
    exact Or.inl ⟨rfl,nofun⟩

theorem Ready.merged {blob : Blob} {metadata merged : Bytes} (hr : Ready H progress)
    (hb : H.buildCommitmentMetadata contract blob=.ok metadata)
    (hm : Merges H contract progress metadata merged) :
    Ready H (progress.merged contract merged) ∧
      ∀ circuit ∈ progress.circuit,(progress.merged contract merged).circuit=some circuit := by
  cases hr with
  | empty =>
    obtain ⟨_,rfl⟩|⟨initial,first,_⟩ := hm
    · exact ⟨.started (.built hb) rfl,nofun⟩
    · cases first
  | started represents ends =>
    obtain ⟨first,_⟩|⟨initial,first,merges⟩ := hm
    · cases first
    · obtain rfl := Option.some.inj first
      exact ⟨.started (.merged represents merges) ends,fun circuit here => here⟩

theorem Ready.push {metadata : Bytes} {calldata : Calldata} {output : HyleOutput}
    (hr : Ready H (progress.merged contract metadata)) (hn : output.nextState=
      H.getStateCommitment (if output.success then next else contract)) :
    Ready H ((progress.merged contract metadata).push contract next calldata output) := by
  generalize same : progress.merged contract metadata=merged at hr
  cases hr with
  | empty => cases congrArg Progress.commitmentMetadata same
  | started represents ends => exact .started represents (ending_concat.trans hn)

variable {Z : TransactionalZkContract Program} {quote : String → String} [Borsh Program]

theorem Proves.merged {blob : Blob} {metadata merged : Bytes} (hp : Proves Z quote progress)
    (ha : Agrees H Z quote) (ht : Transparent H Z quote) (hr : Ready H progress)
    (hb : H.buildCommitmentMetadata contract blob=.ok metadata)
    (hm : Merges H contract progress metadata merged) :
    Proves Z quote (progress.merged contract merged) := by
  intro result same
  obtain rfl := Option.some.inj same
  cases hr with
  | empty =>
    obtain ⟨_,rfl⟩|⟨initial,first,_⟩ := hm
    · exact ha.decodes hb
    · cases first
  | started represents ends =>
    obtain ⟨first,_⟩|⟨initial,first,merges⟩ := hm
    · cases first
    · obtain rfl := Option.some.inj first
      exact ht.keeps represents merges (hp _ rfl)

theorem Proves.push {blob : Blob} {metadata merged : Bytes} {calldata : Calldata}
    {output : HyleOutput} (hp : Proves Z quote progress) (ha : Agrees H Z quote)
    (ht : Transparent H Z quote) (hr : Ready H progress)
    (hc : ∀ circuit ∈ progress.circuit,
      H.getStateCommitment circuit.2=H.getStateCommitment contract)
    (hb : H.buildCommitmentMetadata contract blob=.ok metadata)
    (hm : Merges H contract progress metadata merged)
    (hi : calldata.blobs.get calldata.index=some blob)
    (hh : H.handle contract calldata=.ok (output,next)) :
    Proves Z quote ((progress.merged contract merged).push contract next calldata output) := by
  intro result same
  obtain rfl := Option.some.inj same
  cases hr with
  | empty =>
    obtain ⟨_,rfl⟩|⟨initial,first,_⟩ := hm
    · exact ha.single hb hi hh
    · cases first
  | started represents ends =>
    obtain ⟨first,_⟩|⟨initial,first,merges⟩ := hm
    · cases first
    · obtain rfl := Option.some.inj first
      exact ht.extends_ represents (hp _ rfl) (ends.trans (hc _ rfl)) hb merges hi hh

theorem executeBlob_advances (ha : Agrees H Z quote) (ht : Transparent H Z quote)
    (hr : Ready H progress)
    (h : AutoProver.executeBlob ctx H tx txCtx index contract progress=.ok (error,next,after)) :
    Advances H Z quote contract progress after ∧ (error=none →
      after.calldatas≠progress.calldatas ∧ ∀ circuit ∈ after.circuit,circuit.2=next) := by
  obtain ⟨rfl,failed⟩|⟨blob,metadata,merged,found,built,merges,step⟩ := executeBlob_cases h
  · refine ⟨⟨hr,⟨[],[],by simp⟩,fun circuit here => ⟨circuit.2,here⟩,fun proves _ => proves⟩,
      fun none => absurd none failed⟩
  obtain ⟨ready,kept⟩ := hr.merged built merges
  obtain ⟨rfl,failed⟩|⟨output,handled,rfl,success⟩ := step
  · refine ⟨⟨ready,⟨[],[],by simp [Progress.merged]⟩,fun circuit here => ⟨circuit.2,kept _ here⟩,
      fun proves _ => proves.merged ha ht hr built merges⟩,fun none => absurd none failed⟩
  · have blobs := IndexedBlobs.get_ofBlobs found
    obtain ⟨starts,ends⟩ := ha.executed handled
    refine ⟨⟨ready.push ends,⟨[_],[output],rfl,rfl,by simp,?_⟩,fun circuit here => ?_,
      fun proves resumes => ?_⟩,fun none => ⟨?_,?_⟩⟩
    · rintro first here
      obtain rfl := Option.some.inj here
      exact starts
    · refine ⟨if output.success then next else contract,?_⟩
      rw [Progress.push,kept circuit here]
      rfl
    · refine proves.push ha ht hr (resumes ?_) built merges blobs handled
      simp [Progress.push,Progress.merged]
    · simp [Progress.push,Progress.merged]
    · intro circuit here
      rw [Option.mem_def,Progress.push] at here
      dsimp only at here
      obtain ⟨before,_,rfl⟩ := Option.map_eq_some_iff.mp here
      exact if_pos (success none)

/-- A blob that succeeds leaves the circuit in the state in which the next one is executed. -/
theorem Advances.trans {last : Progress Contract}
    (h : Advances H Z quote contract progress after) (hn : Advances H Z quote next after last)
    (he : after.calldatas≠progress.calldatas) (hc : ∀ circuit ∈ after.circuit,circuit.2=next) :
    Advances H Z quote contract progress last := by
  obtain ⟨calldatas,outputs,hcd,ho,both,first⟩ := h.added
  obtain ⟨calldatas',outputs',hcd',ho',both',_⟩ := hn.added
  have some_ : calldatas≠[] := by
    rintro rfl
    apply he
    rw [hcd,List.append_nil]
  refine ⟨hn.ready,⟨calldatas++calldatas',outputs++outputs',?_,?_,?_,?_⟩,fun circuit here => ?_,
    fun proves resumes => ?_⟩
  · rw [hcd',hcd,List.append_assoc]
  · rw [ho',ho,List.append_assoc]
  · rw [List.append_eq_nil_iff,List.append_eq_nil_iff,both,both']
  · rwa [List.head?_append_of_ne_nil _ (mt both.mpr some_)]
  · obtain ⟨reached,there⟩ := h.base circuit here
    exact hn.base (circuit.1,reached) there
  · apply hn.proves (h.proves proves fun _ => resumes ?_)
    · intro _ circuit here
      rw [hc circuit here]
    · rw [hcd',hcd,List.append_assoc,Ne,List.append_right_eq_self,List.append_eq_nil_iff]
      exact fun nil => some_ nil.1

theorem executeBlobs_advances {indices : List BlobIndex} (ha : Agrees H Z quote)
    (ht : Transparent H Z quote) (hr : Ready H progress)
    (h : AutoProver.executeBlobs ctx H tx txCtx indices contract progress=
      .ok (error,next,after)) : Advances H Z quote contract progress after := by
  induction indices generalizing contract progress with
  | nil =>
    cases h
    exact ⟨hr,⟨[],[],by simp⟩,fun circuit here => ⟨circuit.2,here⟩,fun proves _ => proves⟩
  | cons index rest ih =>
    obtain ⟨⟨stopped,between,mid⟩,first,h⟩ := Outcome.bind_eq_ok.mp h
    obtain ⟨advances,succeeded⟩ := executeBlob_advances ha ht hr first
    cases stopped with
    | none =>
      obtain ⟨executed,reached⟩ := succeeded rfl
      exact advances.trans (ih advances.ready h) executed reached
    | some message =>
      cases h
      exact advances

end Execution

section Batches
variable {ctx : AutoProverCtx Contract} {H : TxExecutorHandler Contract}
  {Z : TransactionalZkContract Program} {quote : String → String} [Borsh Program]
  {self next : AutoProver Contract} {progress after : Progress Contract} {tx : ProvableTx}
  {txs : List ProvableTx}

/-- A transaction ends with the state that is stored for it. -/
theorem finishTx_eq_ok {txHash : TxHash} {initial contract : Contract} {error : Option String}
    {done : Unit} (h : AutoProver.finishTx ctx txHash initial contract error self=(.ok done,next)) :
    next.store=self.store.record txHash (error.elim contract fun _ => initial) := by
  have stores : ∀ event contract,(do
      AutoProver.send ctx event
      AutoProver.record txHash contract : Handler (AutoProver Contract) Unit) self=
        (.ok done,next) → next.store=self.store.record txHash contract := by
    intro event contract h
    obtain ⟨_,between,sent,h⟩ := Handler.bind_eq_ok.mp h
    rw [AutoProver.send] at sent
    split at sent
    · cases sent
      cases h
      rfl
    · cases sent
  cases error with
  | none => exact stores _ _ h
  | some e => exact stores _ _ h

theorem executeTx_eq_ok (h : AutoProver.executeTx ctx H tx progress self=(.ok after,next)) :
    ∃ contract error last,
      self.store.getStateOfPrevTx ctx.defaultState (tx.2.1.hashed ctx.sha3)=some contract ∧
      AutoProver.executeBlobs ctx H tx.2.1 tx.2.2 tx.1 contract progress=.ok (error,last,after) ∧
      next.store=self.store.record (tx.2.1.hashed ctx.sha3) (error.elim last fun _ => contract) := by
  obtain ⟨prev,_,hp,h⟩ := Handler.bind_eq_ok.mp h
  cases hp
  obtain ⟨contract,_,hc,h⟩ := Handler.bind_eq_ok.mp h
  obtain ⟨found,rfl⟩ := Prod.mk.inj hc
  obtain ⟨⟨error,last,mid⟩,_,he,h⟩ := Handler.bind_eq_ok.mp h
  obtain ⟨executed,rfl⟩ := Prod.mk.inj he
  obtain ⟨_,_,finished,h⟩ := Handler.bind_eq_ok.mp h
  cases h
  exact ⟨contract,error,last,Outcome.fromOption_eq_ok.mp found,executed,finishTx_eq_ok finished⟩

/-- The circuit proves what was executed as long as every transaction resumes where it is. -/
theorem executeTxs_ready (ha : Agrees H Z quote) (ht : Transparent H Z quote)
    (hr : Ready H progress) (h : AutoProver.executeTxs ctx H txs progress self=(.ok after,next)) :
    Ready H after ∧ (∀ circuit ∈ progress.circuit,∃ reached,after.circuit=some (circuit.1,reached)) ∧
      (∃ outputs,after.outputs=progress.outputs++outputs) ∧
      (Proves Z quote progress → Resumes ctx H self.store progress txs →
        Proves Z quote after) := by
  induction txs generalizing self progress with
  | nil =>
    cases h
    exact ⟨hr,fun circuit here => ⟨circuit.2,here⟩,⟨[],(List.append_nil _).symm⟩,
      fun proves _ => proves⟩
  | cons tx rest ih =>
    obtain ⟨mid,between,first,h⟩ := Handler.bind_eq_ok.mp h
    obtain ⟨contract,error,last,found,executed,stored⟩ := executeTx_eq_ok first
    have advances := executeBlobs_advances ha ht hr executed
    obtain ⟨_,outputs,_,ho,_⟩ := advances.added
    obtain ⟨ready,base,⟨outputs',ho'⟩,proves⟩ := ih advances.ready h
    refine ⟨ready,fun circuit here => ?_,⟨outputs++outputs',?_⟩,fun before resumes => ?_⟩
    · obtain ⟨reached,there⟩ := advances.base circuit here
      exact base (circuit.1,reached) there
    · rw [ho',ho,List.append_assoc]
    · obtain ⟨same,later⟩ := resumes contract found error last mid executed
      rw [← stored] at later
      exact proves (advances.proves before same) later

theorem ending_cons {start : StateCommitment} {output : HyleOutput} {outputs : List HyleOutput} :
    ending start (output::outputs)=ending output.nextState outputs := by
  cases outputs with
  | nil => rfl
  | cons next rest => simp [ending,List.getLast?_cons]

theorem initialState_of_chained {start : StateCommitment} {outputs rest : List HyleOutput}
    {output : HyleOutput} (h : Chained start (outputs++output::rest)) :
    output.initialState=ending start outputs := by
  induction outputs generalizing start with
  | nil => exact (chained_cons.mp h).1
  | cons first outputs ih =>
    rw [ending_cons]
    exact ih (chained_cons.mp h).2.2

/-- Outputs that are chained are those of transactions that resume where the circuit is. -/
theorem resumes_of_chained (ha : Agrees H Z quote) (ht : Transparent H Z quote)
    (hr : Ready H progress) (h : AutoProver.executeTxs ctx H txs progress self=(.ok after,next))
    (hc : ∀ circuit ∈ after.circuit,Chained (H.getStateCommitment circuit.1) after.outputs) :
    Resumes ctx H self.store progress txs := by
  induction txs generalizing self progress with
  | nil => trivial
  | cons tx rest ih =>
    obtain ⟨mid,between,first,h⟩ := Handler.bind_eq_ok.mp h
    obtain ⟨contract,error,last,found,executed,stored⟩ := executeTx_eq_ok first
    have advances := executeBlobs_advances ha ht hr executed
    have later := ih advances.ready h
    rw [stored] at later
    intro other same error' last' mid' executed'
    obtain rfl := Option.some.inj (found.symm.trans same)
    cases executed.symm.trans executed'
    refine ⟨fun some_ circuit here => ?_,later⟩
    obtain ⟨calldatas,outputs,hcd,ho,both,head⟩ := advances.added
    obtain ⟨_,base,⟨outputs',ho'⟩,_⟩ := executeTxs_ready ha ht advances.ready h
    cases outputs with
    | nil =>
      apply absurd hcd
      rwa [both.mpr rfl,List.append_nil]
    | cons output outputs =>
      obtain ⟨_,there⟩ := advances.base circuit here
      obtain ⟨_,there'⟩ := base _ there
      have chained := hc _ there'
      rw [ho',ho,List.append_assoc,List.cons_append] at chained
      have starts := initialState_of_chained chained
      cases hr with
      | empty => cases here
      | started represents ends =>
        obtain rfl := Option.some.inj here
        exact ends.symm.trans (starts.symm.trans (head output rfl))

/-- The metadata, calldatas and outputs are those of the transactions of a batch. -/
def Built (ctx : AutoProverCtx Contract) (H : TxExecutorHandler Contract)
    (request : ProofRequest Contract) : Prop :=
  ∃ self progress next,self.store=request.store ∧
    AutoProver.executeTxs ctx H request.txs .empty self=(.ok progress,next) ∧
    progress.commitmentMetadata=some request.commitmentMetadata ∧
    progress.calldatas=request.calldatas ∧ progress.outputs=request.outputs

/-- Proofs are asked for batches only. -/
def Asks (ctx : AutoProverCtx Contract) (H : TxExecutorHandler Contract)
    (self next : AutoProver Contract) : Prop :=
  ∀ request ∈ next.requests,request∈self.requests ∨ Built ctx H request

theorem Asks.of_same {call : AutoProver Contract} (h : call.requests=self.requests) :
    Asks ctx H self call := fun _ here => Or.inl (h ▸ here)

theorem takes_finishTx {txHash : TxHash} {initial contract : Contract} {error : Option String} :
    Handler.Takes (Asks ctx H) self (AutoProver.finishTx ctx txHash initial contract error)
      fun _ _ => True := by
  have sends : ∀ event,
      Handler.Takes (Asks ctx H) self (AutoProver.send ctx event) fun _ _ => True := by
    intro event
    refine ⟨.single (Asks.of_same ?_),fun _ _ => trivial⟩
    unfold AutoProver.send
    split <;> rfl
  cases error with
  | none => exact (sends _).bind fun _ _ _ => (Handler.Takes.modify (Asks.of_same rfl)).any
  | some e => exact (sends _).bind fun _ _ _ => (Handler.Takes.modify (Asks.of_same rfl)).any

theorem takes_executeTxs : Handler.Takes (Asks ctx H) self
    (AutoProver.executeTxs ctx H txs progress)
    fun after next => AutoProver.executeTxs ctx H txs progress self=(.ok after,next) := by
  refine ⟨?_,fun _ ok => Prod.ext ok rfl⟩
  suffices steps : Handler.Takes (Asks ctx H) self (AutoProver.executeTxs ctx H txs progress)
      fun _ _ => True from steps.steps
  induction txs generalizing self progress with
  | nil => exact .pure trivial
  | cons tx rest ih =>
    refine Handler.Takes.bind ?_ fun _ _ (_ : True) => ih
    exact (Handler.Takes.read _).bind fun _ _ _ => (Handler.Takes.lift _).bind fun _ _ _ =>
      (Handler.Takes.lift _).bind fun _ _ _ => takes_finishTx.bind fun _ _ _ => .pure trivial

theorem takes_proveBatch : Handler.Takes (Asks ctx H) self (AutoProver.proveBatch ctx H txs)
    fun _ _ => True := by
  refine (Handler.Takes.modify (Asks.of_same rfl)).bind fun _ _ _ => ?_
  refine (Handler.Takes.read _).bind fun store start ⟨stored,same⟩ => ?_
  subst same
  subst stored
  refine takes_executeTxs.bind fun progress next executed => ?_
  unfold AutoProver.request
  split
  · next metadata first =>
    refine .whenever (fun _ => (Handler.Takes.modify fun request here => ?_).any) fun _ => trivial
    obtain before|last := List.mem_append.mp here
    · exact Or.inl before
    · obtain rfl := List.mem_singleton.mp last
      exact Or.inr ⟨start,progress,next,rfl,executed,first,rfl,rfl⟩
  · exact .pure trivial

theorem takes_proveSupportedBlob {blobs : List ProvableTx} : Handler.Takes (Asks ctx H) self
    (AutoProver.proveSupportedBlob ctx H blobs) fun _ _ => True := by
  induction blobs using AutoProver.proveSupportedBlob.induct ctx generalizing self with
  | case1 blobs batch =>
    rename_i none
    rw [AutoProver.proveSupportedBlob,dif_pos none]
    exact .pure trivial
  | case2 blobs batch remaining some_ =>
    rename_i ih
    rw [AutoProver.proveSupportedBlob,dif_neg some_]
    exact takes_proveBatch.bind fun _ _ _ => .ite (fun _ => .pure trivial) fun more => ih more

theorem built_of_requests {blobs : List ProvableTx} {request : ProofRequest Contract}
    (hs : self.requests=[])
    (h : request∈(AutoProver.proveSupportedBlob ctx H blobs self).2.requests) :
    Built ctx H request := by
  have steps : Relation.ReflTransGen (Asks ctx H) self
      (AutoProver.proveSupportedBlob ctx H blobs self).2 := takes_proveSupportedBlob.steps
  revert request
  generalize (AutoProver.proveSupportedBlob ctx H blobs self).2=last at steps
  induction steps with
  | refl =>
    intro request h
    rw [hs] at h
    cases h
  | tail _ asks ih =>
    intro request h
    obtain before|built := asks request h
    · exact ih before
    · exact built

theorem Proves.empty : Proves Z quote (.empty : Progress Contract) := nofun

/-- A batch is proven as it was executed if and only if every transaction resumes where the
circuit is. -/
theorem execute_eq_iff_resumes (ha : Agrees H Z quote) (ht : Transparent H Z quote)
    {request : ProofRequest Contract} (h : Built ctx H request) :
    Guest.execute Z quote request.commitmentMetadata request.calldatas=.ok request.outputs ↔
      Resumes ctx H request.store .empty request.txs := by
  obtain ⟨self,progress,next,stored,executed,metadata,calldatas,outputs⟩ := h
  rw [← stored,← calldatas,← outputs]
  obtain ⟨ready,_,_,proves⟩ := executeTxs_ready ha ht .empty executed
  constructor
  · intro same
    refine resumes_of_chained ha ht .empty executed fun circuit here => ?_
    cases ready with
    | empty => cases here
    | started represents ends =>
      obtain rfl := Option.some.inj here
      obtain rfl := Option.some.inj metadata
      exact ha.settles represents same
  · intro resumes
    exact proves .empty resumes _ metadata

/-- Transactions that fit into one proof are one batch. -/
theorem proveSupportedBlob_of_length_le {blobs : List ProvableTx} (hb : blobs≠[])
    (hl : blobs.length≤ ctx.maxTxsPerProof) :
    AutoProver.proveSupportedBlob ctx H blobs self=AutoProver.proveBatch ctx H blobs self := by
  rw [AutoProver.proveSupportedBlob,List.take_of_length_le hl,List.drop_of_length_le hl,
    dif_neg hb,if_pos rfl,Handler.bind_apply]
  rcases AutoProver.proveBatch ctx H blobs self with ⟨result,next⟩
  cases result <;> rfl

/-- Each proof is one of what was executed if and only if every transaction of its batch is
executed from the state in which the blobs before it leave the circuit. -/
theorem proves_executed_iff (ha : Agrees H Z quote) (ht : Transparent H Z quote)
    (self : AutoProver Contract) (hs : self.requests=[]) (blobs : List ProvableTx) :
    ∀ request ∈ (AutoProver.proveSupportedBlob ctx H blobs self).2.requests,
      Guest.execute Z quote request.commitmentMetadata request.calldatas=.ok request.outputs ↔
        Resumes ctx H request.store .empty request.txs :=
  fun _ here => execute_eq_iff_resumes ha ht (built_of_requests hs here)

end Batches

namespace Journal

/-- A contract that keeps the data of its blobs, and fails on a blob without data. -/
def append (contract : Bytes) (calldata : Calldata) :
    Outcome (Bytes × ExecutionContext × List OnchainEffect) × Bytes :=
  match calldata.blobs.get calldata.index with
  | none => (Outcome.err "missing",contract)
  | some blob =>
      if blob.data=[] then (Outcome.err "empty",contract)
      else (.ok ([],.new calldata.identity blob.contractName,[]),contract++blob.data)

def circuit : TransactionalZkContract Bytes where
  execute := append
  commit := id
  initializeContract contract := (.ok (),contract)
  State := Bytes
  initialState := id
  revert _ state := state
  onSuccess contract := (contract,contract)
  commit_revert _ _ := rfl

def executor : TxExecutorHandler Bytes where
  handle contract calldata :=
    match append contract calldata with
    | (.ok out,next) => .ok (asHyleOutput id contract next calldata (.ok out),next)
    | (.error (.err message),_) => .ok (fail calldata contract message,contract)
    | (.error fault,_) => .error fault
  buildCommitmentMetadata contract _ := Outcome.fromOption (ser contract) (.err "too long")
  mergeCommitmentMetadata _ initial _ := .ok initial
  getStateCommitment := id

theorem fromSlice_of_represents {metadata contract : Bytes}
    (h : Represents executor metadata contract) : fromSlice Bytes metadata=some contract := by
  induction h with
  | built h => exact fromSlice_ser (Outcome.fromOption_eq_ok.mp h)
  | merged _ h ih =>
    obtain rfl := Except.ok.inj h
    exact ih

theorem execute_of_represents {metadata contract : Bytes}
    (h : Represents executor metadata contract) (calldatas : List Calldata) :
    Guest.execute circuit id metadata calldatas=
      Guest.turns circuit id contract contract calldatas :=
  Guest.execute_started (fromSlice_of_represents h) rfl calldatas

theorem append_cases (contract : Bytes) (calldata : Calldata) :
    (∃ message,append contract calldata=(.error (.err message),contract)) ∨
      ∃ out next,append contract calldata=(.ok out,next) ∧ out.2.1.calleesBlobs=[] := by
  unfold append
  split
  · exact Or.inl ⟨_,rfl⟩
  · split_ifs
    · exact Or.inl ⟨_,rfl⟩
    · exact Or.inr ⟨_,_,rfl,rfl⟩

/-- The executor and the circuit do the same. -/
theorem handle_turn (contract : Bytes) (calldata : Calldata) :
    ∃ output next,executor.handle contract calldata=.ok (output,next) ∧
      Guest.turn circuit id contract contract calldata=
        .ok (output,output.nextState,output.nextState) ∧
      output.initialState=contract ∧
      output.nextState=(if output.success then next else contract) := by
  obtain ⟨message,failed⟩|⟨out,next,succeeded,callees⟩ := append_cases contract calldata
  · refine ⟨fail calldata contract message,contract,?_,Guest.turn_of_err failed,rfl,rfl⟩
    dsimp only [executor]
    rw [failed]
  · have output : asHyleOutput id contract next calldata (.ok out)=
        { version := 1, initialState := contract, nextState := next
          identity := calldata.identity, index := calldata.index, blobs := calldata.blobs
          txBlobCount := calldata.txBlobCount, success := true, txHash := calldata.txHash
          stateReads := [], txCtx := calldata.txCtx, onchainEffects := out.2.2
          programOutputs := out.1 } := by
      rw [asHyleOutput,if_neg (not_not_intro callees)]
    refine ⟨asHyleOutput id contract next calldata (.ok out),next,?_,?_,?_,?_⟩
    · dsimp only [executor]
      rw [succeeded]
    · have turned : Guest.turn circuit id contract contract calldata=
          .ok (asHyleOutput id contract next calldata (.ok out),next,next) :=
        Guest.turn_of_ok succeeded
      rw [turned,output]
    · rw [output]
    · rw [output]
      rfl

theorem turns_concat {base contract next : Bytes} {calldatas : List Calldata}
    {calldata : Calldata} {outputs : List HyleOutput} {output : HyleOutput}
    (h : Guest.turns circuit id base base calldatas=.ok outputs)
    (he : ending base outputs=contract)
    (hh : executor.handle contract calldata=.ok (output,next)) :
    Guest.turns circuit id base base (calldatas++[calldata])=.ok (outputs++[output]) := by
  induction calldatas generalizing base outputs with
  | nil =>
    obtain rfl := Guest.turns_nil.mp h
    obtain rfl : base=contract := he
    obtain ⟨output',next',handled,turned,_⟩ := handle_turn base calldata
    cases handled.symm.trans hh
    exact Guest.turns_single.mpr ⟨_,_,turned⟩
  | cons first rest ih =>
    obtain ⟨output',after,reached,tail,turn,turns,rfl⟩ := Guest.turns_cons.mp h
    obtain ⟨_,_,_,turned,_⟩ := handle_turn base first
    cases turned.symm.trans turn
    rw [ending_cons] at he
    exact Guest.turns_cons.mpr ⟨output',_,_,_,turn,ih turns he,rfl⟩

theorem paced (contract commitment : Bytes) (calldatas : List Calldata) :
    Guest.Paced circuit contract commitment calldatas := by
  induction calldatas generalizing contract commitment with
  | nil => trivial
  | cons calldata rest ih =>
    refine ⟨fun _ out executed => Or.inl ?_,ih _ _⟩
    obtain ⟨message,failed⟩|⟨_,_,succeeded,callees⟩ := append_cases contract calldata
    · cases executed.symm.trans (congrArg Prod.fst failed)
    · cases executed.symm.trans (congrArg Prod.fst succeeded)
      exact callees

theorem agrees : Agrees executor circuit id where
  executed := by
    intro contract next calldata output handled
    obtain ⟨_,_,handled',_,initial,final⟩ := handle_turn contract calldata
    cases handled'.symm.trans handled
    exact ⟨initial,final⟩
  settles := by
    intro base metadata calldatas outputs represents executed
    rw [execute_of_represents represents] at executed
    exact (Guest.turns_chained_iff executed).mpr (paced _ _ _)
  decodes := by
    intro contract blob metadata built
    rw [execute_of_represents (.built built)]
    rfl
  single := by
    intro contract next blob metadata calldata output built _ handled
    rw [execute_of_represents (.built built)]
    obtain ⟨_,_,handled',turned,_⟩ := handle_turn contract calldata
    cases handled'.symm.trans handled
    exact Guest.turns_single.mpr ⟨_,_,turned⟩

theorem transparent : Transparent executor circuit id where
  keeps := by
    intro base contract initial next metadata calldatas outputs _ merged executed
    obtain rfl := Except.ok.inj merged
    exact executed
  extends_ := by
    intro base contract after blob initial next metadata calldatas calldata outputs output represents
      executed ends _ merged _ handled
    obtain rfl := Except.ok.inj merged
    rw [execute_of_represents represents] at executed ⊢
    exact turns_concat executed ends handled

def journalCtx : AutoProverCtx Bytes where
  sha3 bytes := ByteVec.ofNat 32 bytes.length
  defaultState := []
  maxTxsPerProof := 2
  bus _ := .ok ()
  fromUtf8Lossy _ := ""

def txCtx : TxContext := ⟨[],"",1,0,0⟩

/-- The first transaction writes and then fails, the second one writes. -/
def writes : List ProvableTx :=
  [([0,1],⟨"writer",[⟨"journal",[1]⟩,⟨"journal",[]⟩]⟩,txCtx),
    ([0],⟨"writer",[⟨"journal",[2]⟩]⟩,txCtx)]

/-- Both transactions write, the first one twice. -/
def appends : List ProvableTx :=
  [([0,1],⟨"writer",[⟨"journal",[1]⟩,⟨"journal",[3]⟩]⟩,txCtx),
    ([0],⟨"writer",[⟨"journal",[2]⟩]⟩,txCtx)]

def waitingFor (txs : List ProvableTx) : AutoProver Bytes where
  store :=
    { stateHistory := ∅
      txChain := txs.map fun tx => tx.2.1.hashed journalCtx.sha3
      batchId := 0 }
  sent := []
  requests := []

def waiting : AutoProver Bytes := waitingFor writes

theorem exists_request_writes :
    ∃ request ∈ (AutoProver.proveSupportedBlob journalCtx executor writes waiting).2.requests,
      Guest.execute circuit id request.commitmentMetadata request.calldatas≠
        .ok request.outputs := by
  rw [proveSupportedBlob_of_length_le (by decide) (by decide)]
  have proven : (AutoProver.proveBatch journalCtx executor writes waiting).2.requests.map
      (fun request => ((Guest.execute circuit id request.commitmentMetadata
        request.calldatas).toOption.map (List.map HyleOutput.nextState),
        request.outputs.map HyleOutput.nextState))=
      [(some [[1],[1],[1,2]],[[1],[1],[2]])] := by
    decide +kernel
  cases requests : (AutoProver.proveBatch journalCtx executor writes waiting).2.requests with
  | nil =>
    rw [requests] at proven
    cases proven
  | cons request rest =>
    refine ⟨request,List.mem_cons_self,fun same => ?_⟩
    rw [requests,List.map_cons,same] at proven
    obtain ⟨first,second⟩ := Prod.mk.inj (List.cons.inj proven).1
    have both := (Option.some.inj first).symm.trans second
    revert both
    decide

/-- The second write was executed on the state before the first one, and is proven on the state
after it. -/
theorem not_proven_writes : Agrees executor circuit id ∧ Transparent executor circuit id ∧
    ∃ request ∈ (AutoProver.proveSupportedBlob journalCtx executor writes waiting).2.requests,
      Guest.execute circuit id request.commitmentMetadata request.calldatas≠
        .ok request.outputs :=
  ⟨agrees,transparent,exists_request_writes⟩

theorem execute_appends :
    ((AutoProver.proveSupportedBlob journalCtx executor appends (waitingFor appends)).2.requests.map
      fun request => (request.txs.length,request.outputs.map HyleOutput.nextState,
        decide (Guest.execute circuit id request.commitmentMetadata request.calldatas=
          .ok request.outputs)))=[(2,[[1],[1,3],[1,3,2]],true)] := by
  rw [proveSupportedBlob_of_length_le (by decide) (by decide)]
  decide +kernel

/-- A batch of two transactions that write resumes, and the one with the failure does not. -/
theorem resumes_appends :
    (∃ request ∈ (AutoProver.proveSupportedBlob journalCtx executor appends
        (waitingFor appends)).2.requests,
      request.txs.length=2 ∧ Resumes journalCtx executor request.store .empty request.txs) ∧
    ∃ request ∈ (AutoProver.proveSupportedBlob journalCtx executor writes waiting).2.requests,
      ¬Resumes journalCtx executor request.store .empty request.txs := by
  constructor
  · have all := execute_appends
    obtain ⟨request,rest,requests,same,_⟩ := List.map_eq_cons_iff.mp all
    obtain ⟨length,proven⟩ := Prod.mk.inj same
    have here : request∈(AutoProver.proveSupportedBlob journalCtx executor appends
        (waitingFor appends)).2.requests := requests ▸ List.mem_cons_self
    refine ⟨request,here,length,?_⟩
    exact (proves_executed_iff agrees transparent (waitingFor appends) rfl appends request here).mp
      (of_decide_eq_true (Prod.mk.inj proven).2)
  · obtain ⟨request,here,differs⟩ := exists_request_writes
    have proves := proves_executed_iff agrees transparent waiting rfl writes request here
    exact ⟨request,here,mt proves.mpr differs⟩

end Journal

end TruthSeeker.Prover
