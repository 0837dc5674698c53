import Mathlib.Computability.StateTransition
import Mathlib.Logic.Relation

namespace TruthSeeker.Commuting

open Relation

variable {σ α : Type}

/-- Each action does one thing in a state, and two actions do the same in either order. -/
structure Commute (step : σ → α → σ → Prop) : Prop where
  unique : ∀ {s t u a},step s a t → step s a u → t=u
  swap : ∀ {s t u a b},a≠b → step s a t → step s b u → ∃ v,step t b v ∧ step u a v

variable {step : σ → α → σ → Prop}

/-- One action of some kind. -/
def Act (step : σ → α → σ → Prop) (s t : σ) : Prop := ∃ a,step s a t

/-- No action is left. -/
def Final (step : σ → α → σ → Prop) (s : σ) : Prop := ∀ t,¬Act step s t

theorem Commute.diamond (h : Commute step) {s t u : σ} (ht : Act step s t) (hu : Act step s u) :
    ∃ v,ReflGen (Act step) t v ∧ ReflTransGen (Act step) u v := by
  obtain ⟨a,ha⟩ := ht
  obtain ⟨b,hb⟩ := hu
  by_cases same : a=b
  · subst same
    have eq : t=u := h.unique ha hb
    subst eq
    exact ⟨t,ReflGen.refl,ReflTransGen.refl⟩
  · obtain ⟨v,hv,hw⟩ := h.swap same ha hb
    exact ⟨v,ReflGen.single ⟨b,hv⟩,ReflTransGen.single ⟨a,hw⟩⟩

theorem Final.eq {s t : σ} (h : Final step s) (hr : ReflTransGen (Act step) s t) : s=t := by
  cases ReflTransGen.cases_head hr with
  | inl same => exact same
  | inr more =>
    obtain ⟨next,first,_⟩ := more
    exact absurd first (h next)

/-- All runs that can go no further end in the same state. -/
theorem Commute.final_unique (h : Commute step) {s t u : σ}
    (ht : ReflTransGen (Act step) s t) (hu : ReflTransGen (Act step) s u)
    (final : Final step t) (final' : Final step u) : t=u := by
  obtain ⟨v,left,right⟩ := church_rosser (fun _ _ _ => h.diamond) ht hu
  exact (final.eq left).trans (final'.eq right).symm

end TruthSeeker.Commuting

namespace TruthSeeker.Loop

open StateTransition

variable {σ : Type}

/-- At most so many turns of a loop. -/
def run (step : σ → Option σ) : Nat → σ → σ
  | 0,s => s
  | fuel+1,s =>
      match step s with
      | none => s
      | some t => run step fuel t

variable {step : σ → Option σ} {s t u : σ}

theorem mem_eval_of_none (h : step s=none) : s∈eval step s :=
  mem_eval.mpr ⟨.refl,h⟩

theorem mem_eval_of_some (h : step s=some t) (hu : u∈eval step t) : u∈eval step s := by
  obtain ⟨reached,last⟩ := mem_eval.mp hu
  exact mem_eval.mpr ⟨.head h reached,last⟩

/-- A measure that each turn lowers bounds the turns of a loop. -/
theorem mem_eval_run {μ : σ → Nat} (hμ : ∀ s t,step s=some t → μ t<μ s) {fuel : Nat}
    (hf : μ s≤fuel) : run step fuel s∈eval step s := by
  induction fuel generalizing s with
  | zero =>
    cases hs : step s with
    | none => exact mem_eval_of_none hs
    | some t =>
      have less := hμ s t hs
      omega
  | succ fuel ih =>
    rw [run]
    cases hs : step s with
    | none => exact mem_eval_of_none hs
    | some t =>
      have less := hμ s t hs
      exact mem_eval_of_some hs (ih (by omega))

/-- What every turn keeps holds at the end, where no turn is left. -/
theorem of_mem_eval {I : σ → Prop} (hI : ∀ s t,I s → step s=some t → I t) (hs : I s)
    (hu : u∈eval step s) : I u ∧ step u=none := by
  obtain ⟨reached,last⟩ := mem_eval.mp hu
  refine ⟨?_,last⟩
  clear hu last
  induction reached with
  | refl => exact hs
  | tail _ turn ih => exact hI _ _ ih turn

end TruthSeeker.Loop
