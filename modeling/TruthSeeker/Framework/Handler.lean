import Mathlib.Logic.Relation
import TruthSeeker.Framework.Outcome

namespace TruthSeeker

/-- A call on a state. What it has changed before a fault stays changed. -/
def Handler (σ α : Type) := σ → Outcome α × σ

namespace Handler

variable {σ α β : Type}

instance : Monad (Handler σ) where
  pure a := fun s => (.ok a,s)
  bind call next := fun s =>
    match call s with
    | (.ok a,s) => next a s
    | (.error fault,s) => (.error fault,s)

def read (f : σ → α) : Handler σ α := fun s => (.ok (f s),s)

def modify (f : σ → σ) : Handler σ Unit := fun s => (.ok (),f s)

/-- A computation that does not change the state. -/
def lift (x : Outcome α) : Handler σ α := fun s => (x,s)

def fail (message : String) : Handler σ α := lift (Outcome.err message)

def whenever (c : Prop) [Decidable c] (call : Handler σ Unit) : Handler σ Unit :=
  if c then call else pure ()

/-- A returned error gets a text in front of it. -/
def context (message : String) (call : Handler σ α) : Handler σ α := fun s =>
  match call s with
  | (.error (.err e),s) => (.error (.err (message++": "++e)),s)
  | result => result

theorem bind_apply (call : Handler σ α) (next : α → Handler σ β) (s : σ) :
    (call >>= next) s=match call s with
      | (.ok a,s) => next a s
      | (.error fault,s) => (.error fault,s) := rfl

theorem bind_of_eq {call call' : Handler σ α} {next : α → Handler σ β} {s t : σ}
    (h : call s=call' t) : (call >>= next) s=(call' >>= next) t := by
  rw [bind_apply,bind_apply,h]

theorem bind_of_error {call : Handler σ α} {next : α → Handler σ β} {s t : σ} {fault : Fault}
    (h : call s=(.error fault,t)) : (call >>= next) s=(.error fault,t) := by
  rw [bind_apply,h]

theorem bind_of_ok {call : Handler σ α} {next : α → Handler σ β} {s t : σ} {a : α}
    (h : call s=(.ok a,t)) : (call >>= next) s=next a t := by
  rw [bind_apply,h]

theorem bind_eq_ok {call : Handler σ α} {next : α → Handler σ β} {s t : σ} {b : β} :
    (call >>= next) s=(.ok b,t) ↔ ∃ a u,call s=(.ok a,u) ∧ next a u=(.ok b,t) := by
  rw [bind_apply]
  rcases call s with ⟨result,u⟩
  cases result with
  | error fault => simp
  | ok a =>
    constructor
    · intro h
      exact ⟨a,u,rfl,h⟩
    · rintro ⟨_,_,same,h⟩
      cases same
      exact h

/-- The call returns a value from any state. -/
def Succeeds (call : Handler σ α) : Prop := ∀ s,∃ a t,call s=(.ok a,t)

namespace Succeeds

variable {call : Handler σ α} {next : α → Handler σ β}

theorem pure (a : α) : Succeeds (Pure.pure a : Handler σ α) := fun s => ⟨a,s,rfl⟩

theorem modify (f : σ → σ) : Succeeds (Handler.modify f) := fun s => ⟨(),f s,rfl⟩

theorem bind (h : Succeeds call) (hn : ∀ a,Succeeds (next a)) : Succeeds (call >>= next) := by
  intro s
  obtain ⟨a,t,hc⟩ := h s
  obtain ⟨b,u,hb⟩ := hn a t
  exact ⟨b,u,bind_eq_ok.mpr ⟨a,t,hc,hb⟩⟩

theorem forM {xs : List β} {f : β → Handler σ Unit} (h : ∀ x ∈ xs,Succeeds (f x)) :
    Succeeds (xs.forM f) := by
  induction xs with
  | nil => exact pure ()
  | cons x xs ih =>
    have rest := ih fun y hy => h y (List.mem_cons_of_mem _ hy)
    exact bind (h x List.mem_cons_self) fun _ => rest

end Succeeds

/-- The call takes steps of a relation only, also where it fails, and a value that it returns
meets the postcondition. -/
structure Takes (R : σ → σ → Prop) (s : σ) (call : Handler σ α) (Q : α → σ → Prop) : Prop where
  steps : Relation.ReflTransGen R s (call s).2
  value : ∀ a,(call s).1=.ok a → Q a (call s).2

namespace Takes

variable {R : σ → σ → Prop} {s : σ} {call : Handler σ α} {next : α → Handler σ β}
  {P : α → σ → Prop} {Q : β → σ → Prop}

theorem pure {a : α} (h : P a s) : Takes R s (Pure.pure a) P where
  steps := .refl
  value _ hb := Except.ok.inj hb ▸ h

theorem bind (h : Takes R s call P) (hn : ∀ a t,P a t → Takes R t (next a) Q) :
    Takes R s (call >>= next) Q := by
  rcases hc : call s with ⟨result,t⟩
  have steps := h.steps
  rw [hc] at steps
  cases result with
  | error fault =>
    have stopped : (call >>= next) s=(.error fault,t) := bind_of_error hc
    constructor
    · rw [stopped]
      exact steps
    · intro b hb
      rw [stopped] at hb
      cases hb
  | ok a =>
    have rest := hn a t (by simpa [hc] using h.value a (by rw [hc]))
    have goes : (call >>= next) s=next a t := bind_of_ok hc
    constructor
    · rw [goes]
      exact steps.trans rest.steps
    · intro b hb
      rw [goes] at hb ⊢
      exact rest.value b hb

theorem mono {P' : α → σ → Prop} (h : Takes R s call P) (hp : ∀ a t,P a t → P' a t) :
    Takes R s call P' where
  steps := h.steps
  value a ha := hp a _ (h.value a ha)

/-- The rule for the end of a call that promises nothing about its value. -/
theorem any (h : Takes R s call P) : Takes R s call fun _ _ => True := h.mono fun _ _ _ => trivial

/-- The state that a returned value comes with has been reached by the steps. -/
theorem reached (h : Takes R s call P) :
    Takes R s call fun a t => P a t ∧ Relation.ReflTransGen R s t where
  steps := h.steps
  value a ha := ⟨h.value a ha,h.steps⟩

theorem read (f : σ → α) : Takes R s (Handler.read f) fun a t => a=f s ∧ t=s where
  steps := .refl
  value _ ha := ⟨(Except.ok.inj ha).symm,rfl⟩

theorem modify {f : σ → σ} (h : R s (f s)) : Takes R s (Handler.modify f) fun _ t => t=f s where
  steps := .single h
  value _ _ := rfl

theorem modifies {f : σ → σ} (h : Relation.ReflTransGen R s (f s)) :
    Takes R s (Handler.modify f) fun _ t => t=f s where
  steps := h
  value _ _ := rfl

theorem lift (x : Outcome α) : Takes R s (Handler.lift x) fun a t => x=.ok a ∧ t=s where
  steps := .refl
  value _ ha := ⟨ha,rfl⟩

theorem fail (message : String) : Takes R s (Handler.fail message) P where
  steps := .refl
  value _ ha := by cases ha

theorem ite {c : Prop} [Decidable c] {no : Handler σ α} (hy : c → Takes R s call P)
    (hn : ¬c → Takes R s no P) : Takes R s (if c then call else no) P := by
  split_ifs with hc
  · exact hy hc
  · exact hn hc

theorem whenever {c : Prop} [Decidable c] {call : Handler σ Unit} {P : Unit → σ → Prop}
    (hy : c → Takes R s call P) (hn : ¬c → P () s) : Takes R s (Handler.whenever c call) P :=
  ite hy fun hc => pure (hn hc)

theorem context {message : String} (h : Takes R s call P) :
    Takes R s (Handler.context message call) P := by
  have same : (Handler.context message call s).2=(call s).2 ∧
      ∀ a,(Handler.context message call s).1=.ok a → (call s).1=.ok a := by
    unfold Handler.context
    rcases call s with ⟨(_ | _) | _,t⟩ <;> simp
  constructor
  · rw [same.1]
    exact h.steps
  · intro a ha
    rw [same.1]
    exact h.value a (same.2 a ha)

end Takes

end Handler

end TruthSeeker
