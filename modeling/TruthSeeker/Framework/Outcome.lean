import Mathlib.Tactic.Basic
import Mathlib.Tactic.SplitIfs

namespace TruthSeeker

/-- What stops a call: a returned error with its text, or a panic. -/
inductive Fault where
  | err (message : String)
  | panic (message : String)
  deriving DecidableEq

abbrev Outcome (α : Type) := Except Fault α

namespace Outcome

def err {α : Type} (message : String) : Outcome α := .error (.err message)

def panic {α : Type} (message : String) : Outcome α := .error (.panic message)

/-- An early return with an error unless the condition holds. -/
def ensure (c : Prop) [Decidable c] (message : String) : Outcome Unit :=
  if c then .ok () else err message

/-- A panic unless the condition holds. -/
def panicUnless (c : Prop) [Decidable c] (message : String) : Outcome Unit :=
  if c then .ok () else panic message

def fromOption {α : Type} (o : Option α) (fault : Fault) : Outcome α :=
  match o with
  | some a => .ok a
  | none => .error fault

/-- The result of a foreign call, with its error text turned into a fault. -/
def fromExcept {α : Type} (x : Except String α) (fault : String → Fault) : Outcome α :=
  match x with
  | .ok a => .ok a
  | .error e => .error (fault e)

/-- A returned error becomes a value; a panic goes on. -/
def caught {α : Type} (x : Outcome α) : Outcome (Except String α) :=
  match x with
  | .ok a => .ok (.ok a)
  | .error (.err message) => .ok (.error message)
  | .error (.panic message) => panic message

theorem bind_eq_ok {ε α β : Type} {x : Except ε α} {f : α → Except ε β} {b : β} :
    (x >>= f)=.ok b ↔ ∃ a,x=.ok a ∧ f a=.ok b := by
  cases x with
  | error e => simp [bind,Except.bind]
  | ok a => simp [bind,Except.bind]

theorem forM_eq_ok {ε α : Type} {f : α → Except ε Unit} {list : List α} :
    list.forM f=.ok () ↔ ∀ a ∈ list,f a=.ok () := by
  induction list with
  | nil => simp [List.forM,pure,Except.pure]
  | cons a list ih =>
    rw [List.forall_mem_cons,← ih]
    show (f a >>= fun _ => list.forM f)=.ok () ↔ _
    rw [bind_eq_ok]
    exact ⟨fun ⟨_,head,tail⟩ => ⟨head,tail⟩,fun ⟨head,tail⟩ => ⟨(),head,tail⟩⟩

@[simp] theorem pure_eq_ok {α : Type} {a b : α} : (pure a : Outcome α)=.ok b ↔ a=b := by
  simp [pure,Except.pure]

@[simp] theorem err_ne_ok {α : Type} {m : String} {a : α} : (err m : Outcome α)=.ok a ↔ False := by
  simp [err]

@[simp] theorem panic_ne_ok {α : Type} {m : String} {a : α} :
    (panic m : Outcome α)=.ok a ↔ False := by
  simp [panic]

@[simp] theorem ensure_eq_ok {c : Prop} [Decidable c] {m : String} {u : Unit} :
    ensure c m=.ok u ↔ c := by
  unfold ensure
  split_ifs with h <;> simp [h]

@[simp] theorem panicUnless_eq_ok {c : Prop} [Decidable c] {m : String} {u : Unit} :
    panicUnless c m=.ok u ↔ c := by
  unfold panicUnless
  split_ifs with h <;> simp [h]

@[simp] theorem fromOption_eq_ok {α : Type} {o : Option α} {e : Fault} {a : α} :
    fromOption o e=.ok a ↔ o=some a := by
  cases o <;> simp [fromOption]

@[simp] theorem fromExcept_eq_ok {α : Type} {x : Except String α} {f : String → Fault} {a : α} :
    fromExcept x f=.ok a ↔ x=.ok a := by
  cases x <;> simp [fromExcept]

theorem caught_eq_ok {α : Type} {x : Outcome α} {y : Except String α} :
    caught x=.ok y ↔ (∃ a,x=.ok a ∧ y=.ok a) ∨ ∃ m,x=.error (.err m) ∧ y=.error m := by
  rcases x with (_ | _) | _ <;> simp [caught,panic,eq_comm]

def panics {α : Type} : Outcome α → Bool
  | .error (.panic _) => true
  | _ => false

/-- The call returns, with a value or an error. -/
def Quiet {α : Type} (x : Outcome α) : Prop := ∀ m,x≠.error (.panic m)

namespace Quiet

variable {α β : Type}

theorem of_ok {a : α} : Quiet (.ok a : Outcome α) := by
  intro m h
  cases h

theorem of_err {m : String} : Quiet (err m : Outcome α) := by
  intro m h
  cases h

theorem ensure {c : Prop} [Decidable c] {m : String} : Quiet (ensure c m) := by
  unfold Outcome.ensure
  split_ifs
  · exact of_ok
  · exact of_err

theorem fromOption {o : Option α} {m : String} : Quiet (fromOption o (.err m)) := by
  cases o with
  | none => exact of_err
  | some a => exact of_ok

theorem bind {x : Outcome α} {f : α → Outcome β} (hx : Quiet x)
    (hf : ∀ a,x=.ok a → Quiet (f a)) : Quiet (x >>= f) := by
  cases x with
  | ok a => exact hf a rfl
  | error e =>
    intro m h
    exact hx m (congrArg Except.error (Except.error.inj h))

/-- A call that returns is a value or an error with its text. -/
theorem cases {x : Outcome α} (h : Quiet x) : (∃ a,x=.ok a) ∨ ∃ m,x=.error (.err m) := by
  rcases x with (m | m) | a
  · exact Or.inr ⟨m,rfl⟩
  · exact absurd rfl (h m)
  · exact Or.inl ⟨a,rfl⟩

end Quiet

end Outcome

end TruthSeeker
