import Mathlib.Data.List.Basic

namespace TruthSeeker.Trace

variable {σ α β : Type} (step : σ → α → σ) (out : σ → α → List β)

/-- What the steps of a fold put out, in order. -/
def outputs : σ → List α → List β
  | _,[] => []
  | s,a::as => out s a++outputs (step s a) as

variable {step out}

theorem outputs_append {s : σ} {as bs : List α} : outputs step out s (as++bs)=
    outputs step out s as++outputs step out (as.foldl step s) bs := by
  induction as generalizing s with
  | nil => rfl
  | cons a as ih => simp only [List.cons_append,outputs,ih,List.append_assoc,List.foldl_cons]

/-- An invariant of the steps that vouches for what each of them puts out. -/
theorem forall_mem_outputs {I : σ → Prop} {Q : β → Prop} {s : σ} {as : List α} (hs : I s)
    (hi : ∀ s,∀ a ∈ as,I s → I (step s a)) (hq : ∀ s,∀ a ∈ as,I s → ∀ b ∈ out s a,Q b) :
    ∀ b ∈ outputs step out s as,Q b := by
  induction as generalizing s with
  | nil => simp [outputs]
  | cons a as ih =>
    intro b hb
    obtain head|tail := List.mem_append.mp hb
    · exact hq s a List.mem_cons_self hs b head
    · have next : I (step s a) := hi s a List.mem_cons_self hs
      exact ih next (fun s a ha => hi s a (List.mem_cons_of_mem _ ha))
        (fun s a ha => hq s a (List.mem_cons_of_mem _ ha)) b tail

/-- An invariant that each step keeps as long as its outputs are good. -/
theorem foldl_of_outputs {I : σ → Prop} {Q : β → Prop} {s : σ} {as : List α} (hs : I s)
    (hi : ∀ s,∀ a ∈ as,I s → (∀ b ∈ out s a,Q b) → I (step s a))
    (hq : ∀ b ∈ outputs step out s as,Q b) : I (as.foldl step s) := by
  induction as generalizing s with
  | nil => exact hs
  | cons a as ih =>
    have next : I (step s a) :=
      hi s a List.mem_cons_self hs fun b hb => hq b (List.mem_append_left _ hb)
    exact ih next (fun s a ha => hi s a (List.mem_cons_of_mem _ ha))
      fun b hb => hq b (List.mem_append_right _ hb)

/-- The outputs of one of the steps are among those of the fold. -/
theorem mem_outputs_of_mem {s : σ} {before after : List α} {a : α} {b : β}
    (hb : b∈out (before.foldl step s) a) : b∈outputs step out s (before++a::after) := by
  induction before generalizing s with
  | nil => exact List.mem_append_left _ hb
  | cons c before ih => exact List.mem_append_right _ (ih hb)

/-- An invariant of the past outputs and the state. -/
theorem foldl_of_past {I : List β → σ → Prop} {past : List β} {s : σ} {as : List α}
    (hs : I past s) (hi : ∀ past s,∀ a ∈ as,I past s → I (past++out s a) (step s a)) :
    I (past++outputs step out s as) (as.foldl step s) := by
  induction as generalizing past s with
  | nil =>
    rw [outputs,List.append_nil]
    exact hs
  | cons a as ih =>
    have next : I (past++out s a) (step s a) := hi past s a List.mem_cons_self hs
    have rest := ih next fun past s b hb => hi past s b (List.mem_cons_of_mem _ hb)
    rwa [List.append_assoc] at rest

/-- An invariant that the steps keep where they stand in the fold. -/
theorem foldl_of_prefixes {I : σ → Prop} {s : σ} {as : List α} (hs : I s)
    (hi : ∀ before a after,as=before++a::after → I (before.foldl step s) →
      I (step (before.foldl step s) a)) : I (as.foldl step s) := by
  induction as generalizing s with
  | nil => exact hs
  | cons a as ih =>
    have next : I (step s a) := hi [] a as rfl hs
    refine ih next ?_
    intro before b after he
    exact hi (a::before) b after (congrArg (a::·) he)

/-- What holds at the start and not at the end is given up by one of the steps. -/
theorem exists_step {I : σ → Prop} {s : σ} {as : List α} (hs : I s)
    (he : ¬I (as.foldl step s)) : ∃ before a after,as=before++a::after ∧
      I (before.foldl step s) ∧ ¬I (step (before.foldl step s) a) := by
  by_contra h
  apply he
  refine foldl_of_prefixes hs ?_
  intro before a after hsplit hi
  by_contra hn
  exact h ⟨before,a,after,hsplit,hi,hn⟩

/-- What holds of every split of a list holds of the splits before its last element, and of the
last one. -/
theorem forall_split_concat {P : List α → α → Prop} {as : List α} {a : α} :
    (∀ before b after,as++[a]=before++b::after → P before b) ↔
      (∀ before b after,as=before++b::after → P before b) ∧ P as a := by
  constructor
  · intro h
    refine ⟨fun before b after eq => ?_,h as a [] rfl⟩
    exact h before b (after++[a]) (by rw [eq,List.append_assoc,List.cons_append])
  · rintro ⟨earlier,last⟩ before b after eq
    obtain rfl|⟨rest,c,rfl⟩ := after.eq_nil_or_concat
    · obtain ⟨rfl,same⟩ := List.append_inj' eq rfl
      obtain rfl := List.singleton_inj.mp same
      exact last
    · rw [List.concat_eq_append,← List.cons_append,← List.append_assoc] at eq
      exact earlier before b rest (List.append_inj' eq rfl).1

/-- Each event of a history is enabled in the state that the earlier ones lead to. -/
def Legal (enabled : σ → α → Prop) (step : σ → α → σ) : σ → List α → Prop
  | _,[] => True
  | s,a::as => enabled s a ∧ Legal enabled step (step s a) as

theorem legal_append {enabled : σ → α → Prop} {s : σ} {as bs : List α} :
    Legal enabled step s (as++bs) ↔
      Legal enabled step s as ∧ Legal enabled step (as.foldl step s) bs := by
  induction as generalizing s with
  | nil => simp [Legal]
  | cons a as ih => simp only [List.cons_append,Legal,ih,List.foldl_cons,and_assoc]

end TruthSeeker.Trace
