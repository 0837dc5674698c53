import Mathlib.Order.Basic

namespace TruthSeeker.Backtracking

variable {σ α ε : Type} (choose : σ → α → Nat → Option (Except ε σ))

/-- What the choices at the indices come to, one index for each level: nothing if one of them is
no choice, the last state, or a failure, after which no level is left. -/
def outcome : σ → List α → List Nat → Option (Except ε σ)
  | s,[],[] => some (.ok s)
  | s,a::as,i::indices =>
      match choose s a i with
      | none => none
      | some (.error e) => if indices=[] then some (.error e) else none
      | some (.ok t) => outcome t as indices
  | _,_,_ => none

/-- The indices have the first outcome in lexicographic order. -/
structure First (s : σ) (as : List α) (indices : List Nat) (result : Except ε σ) : Prop where
  reached : outcome choose s as indices=some result
  least : ∀ others,List.Lex (fun i j => i<j) others indices → outcome choose s as others=none

/-- No outcome starts with the index. -/
def DeadEnd (s : σ) (a : α) (as : List α) (i : Nat) : Prop :=
  ∀ indices,outcome choose s (a::as) (i::indices)=none

variable {choose} {s t : σ} {a : α} {as : List α} {i : Nat}

theorem outcome_of_ok (h : choose s a i=some (.ok t)) (indices : List Nat) :
    outcome choose s (a::as) (i::indices)=outcome choose t as indices := by
  simp only [outcome,h]

theorem outcome_of_error {e : ε} (h : choose s a i=some (.error e)) (indices : List Nat) :
    outcome choose s (a::as) (i::indices)=if indices=[] then some (.error e) else none := by
  simp only [outcome,h]

theorem deadEnd_of_none (h : choose s a i=none) : DeadEnd choose s a as i := by
  intro indices
  simp only [outcome,h]

theorem deadEnd_of_ok (h : choose s a i=some (.ok t))
    (ht : ∀ indices,outcome choose t as indices=none) : DeadEnd choose s a as i := by
  intro indices
  rw [outcome_of_ok h,ht]

/-- Without a way on from any index there is no outcome. -/
theorem outcome_eq_none (h : ∀ i,DeadEnd choose s a as i) (indices : List Nat) :
    outcome choose s (a::as) indices=none := by
  cases indices with
  | nil => rfl
  | cons i indices => exact h i indices

/-- A last state has been reached with one index for each level. -/
theorem length_of_ok {indices : List Nat} (h : outcome choose s as indices=some (.ok t)) :
    indices.length=as.length := by
  induction as generalizing s indices with
  | nil =>
    cases indices with
    | nil => rfl
    | cons i indices => cases h
  | cons a as ih =>
    cases indices with
    | nil => cases h
    | cons i indices =>
      cases hc : choose s a i with
      | none => simp [outcome,hc] at h
      | some verdict =>
        cases verdict with
        | error e =>
          rw [outcome_of_error hc] at h
          split at h <;> cases h
        | ok next =>
          rw [outcome_of_ok hc] at h
          simp only [List.length_cons,ih h]

namespace First

theorem nil : First choose s [] [] (.ok s) where
  reached := rfl
  least := by
    intro others less
    cases less

/-- The indices before the first way on have no outcome. -/
theorem least_cons (dead : ∀ j< i,DeadEnd choose s a as j) {indices : List Nat}
    (later : ∀ others,List.Lex (fun i j => i<j) others indices →
      outcome choose s (a::as) (i::others)=none) {others : List Nat}
    (h : List.Lex (fun i j => i<j) others (i::indices)) :
    outcome choose s (a::as) others=none := by
  cases h with
  | nil => rfl
  | rel less => exact dead _ less _
  | cons less => exact later _ less

theorem failed {e : ε} (h : choose s a i=some (.error e))
    (dead : ∀ j< i,DeadEnd choose s a as j) : First choose s (a::as) [i] (.error e) where
  reached := by rw [outcome_of_error h,if_pos rfl]
  least := by
    intro others
    apply least_cons dead
    intro others less
    cases less

theorem cons (h : choose s a i=some (.ok t)) (dead : ∀ j< i,DeadEnd choose s a as j)
    {indices : List Nat} {result : Except ε σ} (hf : First choose t as indices result) :
    First choose s (a::as) (i::indices) result where
  reached := by rw [outcome_of_ok h,hf.reached]
  least := by
    intro others
    apply least_cons dead
    intro others less
    rw [outcome_of_ok h,hf.least others less]

end First

end TruthSeeker.Backtracking
