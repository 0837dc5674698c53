import TruthSeeker.Sdk.TxExecutor

namespace TruthSeeker.Sdk

open Bytes Outcome Handler

variable {TypeId : Type} {State : TypeId → Type} [DecidableEq TypeId] {env : ExecutorEnv State}
  {tx : ProvableBlobTx} {runner : ContractRunner} {runners : List ContractRunner}
  {s t u : ContractStates State} {copies : Std.ExtTreeMap ContractName (AnyState State)}

namespace ProvableBlobTx

section Handlers
variable (env tx runner s t)

/-- The runner comes to its handler, which leaves a result and the states. -/
structure Handles (result : Except String HyleOutput) : Prop where
  handled : ∃ type value blob metadata next,s[runner.contractName]?=some ⟨type,value⟩ ∧
    tx.blobs[runner.index.toNat]?=some blob ∧
    (env.handler type).buildCommitmentMetadata value blob=.ok metadata ∧
    (env.handler type).handle value (tx.calldata env runner)=(result,next) ∧
    t=s.insert runner.contractName ⟨type,next⟩

def Succeeds : Prop := ∃ out,Handles env tx runner s t (.ok out) ∧ out.success=true

/-- The handler fails, and the text of a failed output can be logged. -/
def Fails : Prop := (∃ e,Handles env tx runner s t (.error e)) ∨
  ∃ out,Handles env tx runner s t (.ok out) ∧ out.success=false ∧
    (env.logged=true → (String.fromUTF8? ⟨out.programOutputs.toArray⟩).isSome=true)

end Handlers

/-- The runners succeed one after the other. -/
inductive Succeed (env : ExecutorEnv State) (tx : ProvableBlobTx) :
    List ContractRunner → ContractStates State → ContractStates State → Prop
  | nil (s : ContractStates State) : Succeed env tx [] s s
  | cons {runner : ContractRunner} {runners : List ContractRunner}
      {s t u : ContractStates State} (first : Succeeds env tx runner s t)
      (rest : Succeed env tx runners t u) : Succeed env tx (runner::runners) s u

theorem update_box {entry : ContractName × AnyState State} :
    ∃ m,ContractStates.update entry.1 (.box entry.2) s=(err m,s) := by
  unfold ContractStates.update
  split
  · exact ⟨_,rfl⟩
  · exact ⟨_,rfl⟩

/-- Nothing is put back: the first copy is refused for its type. -/
theorem revert_fails (h : copies≠∅) : ∃ m,revert copies s=(err m,s) := by
  unfold revert
  cases hl : copies.toList with
  | nil =>
    refine absurd ?_ h
    rw [Std.ExtTreeMap.eq_empty_iff_size_eq_zero,← Std.ExtTreeMap.length_toList,hl]
    rfl
  | cons entry rest =>
    obtain ⟨m,refused⟩ := @update_box _ _ _ s entry
    have stopped : ((entry::rest).forM fun entry =>
        ContractStates.update entry.1 (.box entry.2)) s=(err m,s) := bind_of_error refused
    exact ⟨m,stopped⟩

/-- A runner whose handler is reached goes on with its result. -/
theorem run_of_handles {result : Except String HyleOutput}
    (h : Handles env tx runner s t result) : ∃ metadata,run env tx copies runner s=
      conclude env copies ⟨runner.contractName,metadata,tx.calldata env runner⟩ result t := by
  obtain ⟨type,value,blob,metadata,next,found,placed,built,ran,rfl⟩ := h.handled
  have lookup : Handler.lift (fromOption tx.blobs[runner.index.toNat]?
      (.panic "index out of bounds")) s=(.ok blob,s) := by
    rw [placed]
    rfl
  have metadataBuilt : ContractStates.buildCommitmentMetadata env runner.contractName blob s=
      (.ok (.ok metadata),s) := by
    unfold ContractStates.buildCommitmentMetadata
    simp only [found,built]
  have executed : ContractStates.execute env runner.contractName (tx.calldata env runner) s=
      (.ok result,s.insert runner.contractName ⟨type,next⟩) := by
    unfold ContractStates.execute
    simp only [found,ran]
  refine ⟨metadata,?_⟩
  unfold run
  refine (bind_of_ok lookup).trans ?_
  refine (bind_of_ok metadataBuilt).trans ?_
  refine (bind_of_ok (a := metadata) rfl).trans ?_
  exact bind_of_ok executed

theorem run_of_succeeds (h : Succeeds env tx runner s t)
    (copies : Std.ExtTreeMap ContractName (AnyState State)) :
    ∃ r : PreparedRunner × HyleOutput,run env tx copies runner s=(.ok r,t) ∧
      r.1.contractName=runner.contractName ∧ r.2.success=true := by
  obtain ⟨out,handles,success⟩ := h
  obtain ⟨metadata,same⟩ := @run_of_handles _ _ _ _ _ _ _ _ copies _ handles
  rw [conclude,if_neg (by simp [success])] at same
  exact ⟨_,same,rfl,success⟩

/-- The text of a failed output is only looked at where errors are logged. -/
theorem conclude_failed {prepared : PreparedRunner} {out : HyleOutput}
    (failed : out.success=false) (hc : copies≠∅) :
    (∃ m,conclude env copies prepared (.ok out) t=(err m,t)) ∧ (env.logged=true →
        (String.fromUTF8? ⟨out.programOutputs.toArray⟩).isSome=true) ∨
      (∃ m,conclude env copies prepared (.ok out) t=(Outcome.panic m,t)) ∧ ¬(env.logged=true →
        (String.fromUTF8? ⟨out.programOutputs.toArray⟩).isSome=true) := by
  obtain ⟨m,reverted⟩ := @revert_fails _ _ _ t copies hc
  unfold conclude
  dsimp only
  rw [if_pos failed]
  by_cases hl : env.logged=true
  · cases hd : String.fromUTF8? ⟨out.programOutputs.toArray⟩ with
    | none =>
      right
      have logged : Handler.whenever (env.logged=true)
          (.lift ((utf8Unwrap out.programOutputs).map fun _ => ())) t=
          (Outcome.panic "called `Result::unwrap()` on an `Err` value: Utf8Error",t) := by
        rw [Handler.whenever,if_pos hl,utf8Unwrap,hd]
        rfl
      exact ⟨⟨_,bind_of_error logged⟩,fun h => by simpa using h hl⟩
    | some decoded =>
      left
      have logged : Handler.whenever (env.logged=true)
          (.lift ((utf8Unwrap out.programOutputs).map fun _ => ())) t=(.ok (),t) := by
        rw [Handler.whenever,if_pos hl,utf8Unwrap,hd]
        rfl
      exact ⟨⟨m,(bind_of_ok logged).trans (bind_of_error reverted)⟩,fun _ => rfl⟩
  · left
    have logged : Handler.whenever (env.logged=true)
        (.lift ((utf8Unwrap out.programOutputs).map fun _ => ())) t=(.ok (),t) := by
      rw [Handler.whenever,if_neg hl]
      rfl
    exact ⟨⟨m,(bind_of_ok logged).trans (bind_of_error reverted)⟩,fun h => absurd h hl⟩

theorem run_of_fails (hc : copies≠∅) (h : Fails env tx runner s t) :
    ∃ m,run env tx copies runner s=(err m,t) := by
  obtain ⟨e,handles⟩|⟨out,handles,failed,text⟩ := h
  · obtain ⟨metadata,same⟩ := @run_of_handles _ _ _ _ _ _ _ _ copies _ handles
    obtain ⟨m,reverted⟩ := @revert_fails _ _ _ t copies hc
    exact ⟨m,same.trans (bind_of_error reverted)⟩
  · obtain ⟨metadata,same⟩ := @run_of_handles _ _ _ _ _ _ _ _ copies _ handles
    rw [same]
    obtain ⟨fails,_⟩|⟨_,mute⟩ := @conclude_failed _ _ _ env t copies
      ⟨runner.contractName,metadata,tx.calldata env runner⟩ out failed hc
    · exact fails
    · exact absurd text mute

/-- Every runner of a known contract succeeds, fails in its handler, or is a panic. -/
theorem run_cases (hr : runner ∈ tx.runners) (known : s.contains runner.contractName=true)
    (hc : copies≠∅) : (∃ t,Succeeds env tx runner s t) ∨ (∃ t,Fails env tx runner s t) ∨
      ∃ m t,run env tx copies runner s=(Outcome.panic m,t) := by
  obtain ⟨blob,placed,_⟩ := Option.map_eq_some_iff.mp (tx.placed runner hr)
  rw [Std.ExtTreeMap.contains_eq_isSome_getElem?,Option.isSome_iff_exists] at known
  obtain ⟨⟨type,value⟩,found⟩ := known
  cases built : (env.handler type).buildCommitmentMetadata value blob with
  | error e =>
    refine Or.inr (Or.inr ⟨"called `Result::unwrap()` on an `Err` value: "++e,s,?_⟩)
    have lookup : Handler.lift (fromOption tx.blobs[runner.index.toNat]?
        (.panic "index out of bounds")) s=(.ok blob,s) := by
      rw [placed]
      rfl
    have metadataBuilt : ContractStates.buildCommitmentMetadata env runner.contractName blob s=
        (.ok (.error e),s) := by
      unfold ContractStates.buildCommitmentMetadata
      simp only [found,built]
    unfold run
    refine (bind_of_ok lookup).trans ?_
    refine (bind_of_ok metadataBuilt).trans ?_
    exact bind_of_error rfl
  | ok metadata =>
    have handles : Handles env tx runner s (s.insert runner.contractName
        ⟨type,((env.handler type).handle value (tx.calldata env runner)).2⟩)
        ((env.handler type).handle value (tx.calldata env runner)).1 :=
      ⟨type,value,blob,metadata,_,found,placed,built,rfl,rfl⟩
    cases hres : ((env.handler type).handle value (tx.calldata env runner)).1 with
    | error e =>
      rw [hres] at handles
      exact Or.inr (Or.inl ⟨_,Or.inl ⟨e,handles⟩⟩)
    | ok out =>
      rw [hres] at handles
      by_cases success : out.success=true
      · exact Or.inl ⟨_,out,handles,success⟩
      have failed : out.success=false := by simpa using success
      obtain ⟨metadata,same⟩ := @run_of_handles _ _ _ _ _ _ _ _ copies _ handles
      obtain ⟨_,text⟩|⟨⟨m,panics⟩,_⟩ := @conclude_failed _ _ _ env (s.insert runner.contractName
        ⟨type,((env.handler type).handle value (tx.calldata env runner)).2⟩) copies
        ⟨runner.contractName,metadata,tx.calldata env runner⟩ out failed hc
      · exact Or.inr (Or.inl ⟨_,Or.inr ⟨out,handles,failed,text⟩⟩)
      · exact Or.inr (Or.inr ⟨m,_,same.trans panics⟩)

omit [DecidableEq TypeId] in
theorem contains_of_succeeds (h : Succeeds env tx runner s t) {contractName : ContractName}
    (known : s.contains contractName=true) : t.contains contractName=true := by
  obtain ⟨out,handles,_⟩ := h
  obtain ⟨_,_,_,_,_,_,_,_,_,rfl⟩ := handles.handled
  simp [known]

theorem runAll_of_succeed (h : Succeed env tx runners s t)
    (copies : Std.ExtTreeMap ContractName (AnyState State)) :
    ∃ ran,runAll env tx copies runners s=(.ok ran,t) ∧
      ran.map (fun r => r.1.contractName)=runners.map ContractRunner.contractName ∧
      ∀ r ∈ ran,r.2.success=true := by
  induction h with
  | nil s => exact ⟨[],rfl,rfl,by simp⟩
  | cons first rest ih =>
    obtain ⟨r,ran,name,success⟩ := run_of_succeeds first copies
    obtain ⟨rs,others,names,successes⟩ := ih
    refine ⟨r::rs,?_,by simp [name,names],List.forall_mem_cons.mpr ⟨success,successes⟩⟩
    refine (bind_of_ok ran).trans ?_
    exact bind_of_ok others

/-- The runners end where one of them does. -/
theorem runAll_of_stopped {before after : List ContractRunner} {fault : Fault}
    (h : Succeed env tx before s t) (hf : run env tx copies runner t=(.error fault,u)) :
    runAll env tx copies (before++runner::after) s=(.error fault,u) := by
  induction h with
  | nil s => exact bind_of_error hf
  | cons first rest ih =>
    obtain ⟨r,ran,_⟩ := run_of_succeeds first copies
    refine (bind_of_ok ran).trans ?_
    exact bind_of_error (ih hf)

/-- The runners of known contracts all succeed, or the first that does not fails in its handler or
is a panic. -/
theorem runAll_cases (hr : ∀ runner ∈ runners,runner ∈ tx.runners)
    (known : ∀ runner ∈ runners,s.contains runner.contractName=true) (hc : copies≠∅) :
    (∃ t,Succeed env tx runners s t) ∨
      (∃ before runner after t u,runners=before++runner::after ∧ Succeed env tx before s t ∧
        Fails env tx runner t u) ∨
      ∃ m t,runAll env tx copies runners s=(Outcome.panic m,t) := by
  induction runners generalizing s with
  | nil => exact Or.inl ⟨s,.nil s⟩
  | cons runner runners ih =>
    obtain ⟨t,first⟩|⟨t,fails⟩|⟨m,t,panics⟩ :=
      @run_cases _ _ _ env _ _ _ copies (hr runner List.mem_cons_self)
        (known runner List.mem_cons_self) hc
    · have rest := @ih t (fun r hm => hr r (List.mem_cons_of_mem _ hm))
        fun r hm => contains_of_succeeds first (known r (List.mem_cons_of_mem _ hm))
      obtain ⟨u,later⟩|⟨before,r,after,u,v,rfl,later,fails⟩|⟨m,u,panics⟩ := rest
      · exact Or.inl ⟨u,.cons first later⟩
      · exact Or.inr (Or.inl ⟨runner::before,r,after,u,v,rfl,.cons first later,fails⟩)
      · obtain ⟨ran,same,_⟩ := run_of_succeeds first copies
        exact Or.inr (Or.inr ⟨m,u,(bind_of_ok same).trans (bind_of_error panics)⟩)
    · exact Or.inr (Or.inl ⟨[],runner,runners,s,t,rfl,.nil s,fails⟩)
    · exact Or.inr (Or.inr ⟨m,t,bind_of_error panics⟩)

omit [DecidableEq TypeId] in
/-- The copies of known contracts are taken. -/
theorem oldStates_of_known {blobs : List Blob}
    (known : ∀ blob ∈ blobs,s.contains blob.contractName=true) :
    ∃ copies,oldStates blobs s=(.ok copies,s) ∧ (blobs≠[] → copies≠∅) := by
  induction blobs with
  | nil => exact ⟨∅,rfl,fun h => absurd rfl h⟩
  | cons blob blobs ih =>
    obtain ⟨copies,taken,_⟩ := ih fun b hb => known b (List.mem_cons_of_mem _ hb)
    have here := known blob List.mem_cons_self
    rw [Std.ExtTreeMap.contains_eq_isSome_getElem?,Option.isSome_iff_exists] at here
    obtain ⟨⟨type,value⟩,found⟩ := here
    have got : ContractStates.get blob.contractName s=(.ok (.state type value),s) := by
      unfold ContractStates.get
      simp only [found]
    refine ⟨copies.insert blob.contractName (.state type value),?_,fun _ => ?_⟩
    · refine (bind_of_ok got).trans ?_
      exact bind_of_ok taken
    · exact Std.ExtTreeMap.insert_ne_empty

omit [DecidableEq TypeId] in
theorem oldStates_of_unknown {blobs : List Blob}
    (unknown : ∃ blob ∈ blobs,s.contains blob.contractName=false) :
    ∃ m,oldStates blobs s=(err m,s) := by
  induction blobs with
  | nil => simp at unknown
  | cons blob blobs ih =>
    cases here : s.contains blob.contractName with
    | false =>
      have absent : s[blob.contractName]?=none := by
        rwa [Std.ExtTreeMap.contains_eq_isSome_getElem?,Option.isSome_eq_false_iff,
          Option.isNone_iff_eq_none] at here
      have refused : ContractStates.get blob.contractName s=
          (err s!"Unknown contract name: {blob.contractName}",s) := by
        unfold ContractStates.get
        simp only [absent]
      exact ⟨_,bind_of_error refused⟩
    | true =>
      have found := here
      rw [Std.ExtTreeMap.contains_eq_isSome_getElem?,Option.isSome_iff_exists] at found
      obtain ⟨⟨type,value⟩,found⟩ := found
      have got : ContractStates.get blob.contractName s=(.ok (.state type value),s) := by
        unfold ContractStates.get
        simp only [found]
      obtain ⟨m,refused⟩ := ih (by simpa [here] using unknown)
      exact ⟨m,(bind_of_ok got).trans (bind_of_error refused)⟩

/-- One successful output for each runner, or an error that leaves the states as they were. -/
def AllOrNothing (tx : ProvableBlobTx) (before : ContractStates State)
    (result : Outcome ProofTxBuilder × ContractStates State) : Prop :=
  match result.1 with
  | .ok builder => builder.outputs.map Prod.fst=tx.runners.map ContractRunner.contractName ∧
      ∀ output ∈ builder.outputs,output.2.success=true
  | .error (.err _) => result.2=before
  | .error (.panic _) => False

/-- Some contract is unknown, all runners succeed, or the first that does not fails in its handler
when all handlers together have left the states as they were. -/
inductive SucceedsOrIdles (env : ExecutorEnv State) (tx : ProvableBlobTx)
    (s : ContractStates State) : Prop
  | unknown (blob : Blob) (hb : blob ∈ tx.blobs) (hu : s.contains blob.contractName=false)
  | succeeds (known : ∀ blob ∈ tx.blobs,s.contains blob.contractName=true)
      (t : ContractStates State) (h : Succeed env tx tx.runners s t)
  | idles (known : ∀ blob ∈ tx.blobs,s.contains blob.contractName=true)
      (before after : List ContractRunner) (runner : ContractRunner) (t : ContractStates State)
      (hs : tx.runners=before++runner::after) (h : Succeed env tx before s t)
      (hf : Fails env tx runner t s)

theorem contractName_of_mem (hr : runner ∈ tx.runners) :
    ∃ blob ∈ tx.blobs,blob.contractName=runner.contractName := by
  obtain ⟨blob,placed,name⟩ := Option.map_eq_some_iff.mp (tx.placed runner hr)
  exact ⟨blob,List.mem_of_getElem? placed,name⟩

/-- The executor is all or nothing exactly under the condition: it never puts a state back. -/
theorem process_allOrNothing_iff (env : ExecutorEnv State) (tx : ProvableBlobTx)
    (s : ContractStates State) :
    AllOrNothing tx s (process env tx s) ↔ SucceedsOrIdles env tx s := by
  by_cases hk : ∃ blob ∈ tx.blobs,s.contains blob.contractName=false
  · obtain ⟨m,refused⟩ := oldStates_of_unknown hk
    have stopped : process env tx s=(err m,s) := bind_of_error refused
    obtain ⟨blob,hb,hu⟩ := hk
    rw [stopped]
    exact iff_of_true rfl (.unknown blob hb hu)
  have known : ∀ blob ∈ tx.blobs,s.contains blob.contractName=true := by
    intro blob hb
    rw [← Bool.not_eq_false]
    exact fun unknown => hk ⟨blob,hb,unknown⟩
  obtain ⟨copies,taken,nonempty⟩ := oldStates_of_known known
  have stopped {fault : Fault} {t : ContractStates State}
      (h : runAll env tx copies tx.runners s=(.error fault,t)) :
      process env tx s=(.error fault,t) :=
    (bind_of_ok taken).trans (bind_of_error h)
  have copied {runner : ContractRunner} (hr : runner ∈ tx.runners) : copies≠∅ := by
    obtain ⟨blob,hb,_⟩ := contractName_of_mem hr
    exact nonempty (List.ne_nil_of_mem hb)
  have fits : ∀ runner ∈ tx.runners,s.contains runner.contractName=true := by
    intro runner hr
    obtain ⟨blob,hb,name⟩ := contractName_of_mem hr
    rw [← name]
    exact known blob hb
  constructor
  · intro h
    cases hr : tx.runners with
    | nil => exact .succeeds known s (hr ▸ .nil s)
    | cons first others =>
      have hc : copies≠∅ := copied (hr ▸ List.mem_cons_self : first ∈ tx.runners)
      obtain ⟨t,all⟩|⟨before,runner,after,t,u,split,passed,fails⟩|⟨m,t,panics⟩ :=
        @runAll_cases _ _ _ env tx tx.runners s copies (fun _ => id) fits hc
      · exact .succeeds known t all
      · obtain ⟨m,failed⟩ := run_of_fails hc fails
        have refused := stopped (split ▸ runAll_of_stopped passed failed)
        rw [refused] at h
        obtain rfl : u=s := h
        exact .idles known before after runner t split passed fails
      · rw [stopped panics] at h
        exact h.elim
  · intro h
    cases h with
    | unknown blob hb hu => exact absurd ⟨blob,hb,hu⟩ hk
    | succeeds _ t h =>
      obtain ⟨ran,same,names,successes⟩ := runAll_of_succeed h copies
      have built : process env tx s=(.ok ⟨tx.identity,tx.blobs,ran.map Prod.fst,
          ran.map fun r => (r.1.contractName,r.2)⟩,t) :=
        (bind_of_ok taken).trans (bind_of_ok same)
      rw [built]
      refine ⟨(List.map_map ..).trans names,?_⟩
      intro output ho
      obtain ⟨r,hr,rfl⟩ := List.mem_map.mp ho
      exact successes r hr
    | idles _ before after runner t hs passed fails =>
      have hc : copies≠∅ := copied (hs ▸ by simp : runner ∈ tx.runners)
      obtain ⟨m,failed⟩ := run_of_fails hc fails
      rw [stopped (hs ▸ runAll_of_stopped passed failed)]
      rfl

end ProvableBlobTx

namespace Counting

open ProvableBlobTx

/-- A contract that counts its calls, refuses them all, and has no metadata for an empty blob. -/
def refusing : ExecutorEnv fun _ : Unit => Nat where
  handler _ := {
    handle := fun n _ => (.error "refused",n+1)
    buildCommitmentMetadata := fun _ blob => if blob.data=[] then .error "empty" else .ok [] }
  sha3 := ByteVec.lookup []
  logged := true
  quote s := s

def states : ContractStates fun _ : Unit => Nat := (∅ : ContractStates _).insert "counter" ⟨(),0⟩

/-- One call of the contract. -/
def call (data : Bytes) : ProvableBlobTx :=
  (ProvableBlobTx.new "alice").addAction ⟨"counter",data⟩ none (by decide)

/-- An error of the metadata is a panic, and a refused call has been counted. -/
theorem not_allOrNothing_call : ¬AllOrNothing (call []) states (process refusing (call []) states) ∧
    ¬AllOrNothing (call [1]) states (process refusing (call [1]) states) := by
  constructor
  · have panics : (process refusing (call []) states).1.panics=true := by decide +kernel
    intro h
    unfold AllOrNothing at h
    split at h
    · next hr =>
      rw [hr] at panics
      cases panics
    · next hr =>
      rw [hr] at panics
      cases panics
    · exact h
  · have counted : (process refusing (call [1]) states).1.panics=false ∧
        (process refusing (call [1]) states).1.toBool=false ∧
        (process refusing (call [1]) states).2["counter"]?.map Sigma.snd=some 1 := by
      decide +kernel
    obtain ⟨_,fails,state⟩ := counted
    intro h
    unfold AllOrNothing at h
    split at h
    · next hr =>
      rw [hr] at fails
      cases fails
    · rw [h] at state
      simp [states] at state
    · exact h

end Counting

end TruthSeeker.Sdk
