import Mathlib.Data.List.Chain

namespace TruthSeeker.Throttle

/-- A wish comes up, or its turn comes. The clock is read to see whether the wish rests, and
again when it is tried. -/
inductive Event (τ : Type) where
  | wish
  | turn (checked stamped : τ) (met : Bool)

structure Attempt (τ : Type) where
  checked : τ
  stamped : τ
  met : Bool
  deriving DecidableEq

/-- Whether the wish waits for its turn, and when it was last tried. -/
structure Wish (τ : Type) where
  waiting : Bool
  last : Option τ

def Event.isWish {τ : Type} : Event τ → Bool
  | .wish => true
  | .turn _ _ _ => false

namespace Wish
variable {τ : Type}

def fresh : Wish τ := ⟨false,none⟩

section Code
variable (rests : τ → τ → Bool)

/-- A wish that rests is dropped. One that is tried waits on if it is not met. -/
def next (self : Wish τ) : Event τ → Wish τ × List (Attempt τ)
  | .wish => (⟨true,self.last⟩,[])
  | .turn checked stamped met =>
      if self.waiting then
        if self.last.any (fun t => rests t checked) then (⟨false,self.last⟩,[])
        else (⟨!met,some stamped⟩,[⟨checked,stamped,met⟩])
      else (self,[])

def run : Wish τ → List (Event τ) → Wish τ × List (Attempt τ)
  | self,[] => (self,[])
  | self,e::es =>
      let (self,tried) := self.next rests e
      let (self,later) := run self es
      (self,tried++later)

end Code

variable {rests : τ → τ → Bool} {w : Wish τ}

@[simp] theorem next_wish : w.next rests .wish=(⟨true,w.last⟩,[]) := rfl

theorem next_turn_of_not_waiting {checked stamped : τ} {met : Bool} (hw : w.waiting=false) :
    w.next rests (.turn checked stamped met)=(w,[]) := by simp [next,hw]

theorem next_turn_of_rests {checked stamped : τ} {met : Bool} (hw : w.waiting=true)
    (hr : w.last.any (fun t => rests t checked)=true) :
    w.next rests (.turn checked stamped met)=(⟨false,w.last⟩,[]) := by simp [next,hw,hr]

theorem next_turn_of_due {checked stamped : τ} {met : Bool} (hw : w.waiting=true)
    (hr : w.last.any (fun t => rests t checked)=false) :
    w.next rests (.turn checked stamped met)=
      (⟨!met,some stamped⟩,[⟨checked,stamped,met⟩]) := by simp [next,hw,hr]

/-- Only a turn at which the wish is tried shows whether it is met. -/
theorem next_turn_any (checked stamped : τ) (met : Bool) :
    w.next rests (.turn checked stamped
        ((w.next rests (.turn checked stamped met)).2.any (·.met)))=
      w.next rests (.turn checked stamped met) := by
  by_cases hw : w.waiting=true
  · by_cases hr : w.last.any (fun t => rests t checked)=true
    · rw [next_turn_of_rests hw hr,next_turn_of_rests hw hr]
    · rw [Bool.not_eq_true] at hr
      simp [next_turn_of_due hw hr]
  · rw [Bool.not_eq_true] at hw
    rw [next_turn_of_not_waiting hw,next_turn_of_not_waiting hw]

theorem next_turn_of_mem {checked stamped : τ} {met : Bool} {a : Attempt τ}
    (ha : a∈(w.next rests (.turn checked stamped met)).2) :
    w.next rests (.turn checked stamped met)=
      (⟨!met,some stamped⟩,[⟨checked,stamped,met⟩]) := by
  by_cases hw : w.waiting=true
  · by_cases hr : w.last.any (fun t => rests t checked)=true
    · rw [next_turn_of_rests hw hr] at ha
      cases ha
    · rw [Bool.not_eq_true] at hr
      exact next_turn_of_due hw hr
  · rw [Bool.not_eq_true] at hw
    rw [next_turn_of_not_waiting hw] at ha
    cases ha

theorem run_cons (e : Event τ) (es : List (Event τ)) : w.run rests (e::es)=
    (((w.next rests e).1.run rests es).1,
      (w.next rests e).2++((w.next rests e).1.run rests es).2) := rfl

theorem run_append (es es' : List (Event τ)) : w.run rests (es++es')=
    (((w.run rests es).1.run rests es').1,
      (w.run rests es).2++((w.run rests es).1.run rests es').2) := by
  induction es generalizing w with
  | nil => rfl
  | cons e es ih => simp [run_cons,ih]

theorem run_singleton (e : Event τ) : w.run rests [e]=w.next rests e := by simp [run]

variable (rests) in
/-- A wish does not rest any more when it is tried again, whatever the clock shows. -/
theorem rested (w : Wish τ) (es : List (Event τ)) :
    (∀ t ∈ w.last,∀ a ∈ (w.run rests es).2.head?,rests t a.checked=false) ∧
      (w.run rests es).2.IsChain fun a b => rests a.stamped b.checked=false := by
  induction es generalizing w with
  | nil => simp [run]
  | cons e es ih =>
    rw [run_cons]
    cases e with
    | wish =>
      obtain ⟨first,later⟩ := ih ⟨true,w.last⟩
      exact ⟨first,later⟩
    | turn checked stamped met =>
      by_cases hw : w.waiting=true
      · by_cases hr : w.last.any (fun t => rests t checked)=true
        · rw [next_turn_of_rests hw hr]
          obtain ⟨first,later⟩ := ih ⟨false,w.last⟩
          exact ⟨first,later⟩
        · rw [Bool.not_eq_true] at hr
          rw [next_turn_of_due hw hr]
          obtain ⟨first,later⟩ := ih ⟨!met,some stamped⟩
          refine ⟨?_,?_⟩
          · intro t ht a ha
            simp only [List.singleton_append,List.head?_cons,Option.mem_some_iff] at ha
            subst ha
            rw [Option.mem_def] at ht
            simpa [ht] using hr
          · refine later.cons ?_
            intro b hb
            exact first stamped rfl b hb
      · rw [Bool.not_eq_true] at hw
        rw [next_turn_of_not_waiting hw]
        exact ih w

variable (rests) in
/-- Each wish is met at most once. -/
theorem met_le_wishes (w : Wish τ) (es : List (Event τ)) :
    (w.run rests es).2.countP (·.met)+(w.run rests es).1.waiting.toNat≤
      es.countP Event.isWish+w.waiting.toNat := by
  induction es generalizing w with
  | nil => simp [run]
  | cons e es ih =>
    rw [run_cons,List.countP_append,List.countP_cons]
    cases e with
    | wish =>
      have later := ih ⟨true,w.last⟩
      have one : w.waiting.toNat≤1 := Bool.toNat_le _
      simp only [next_wish,Event.isWish,List.countP_nil,if_true,Bool.toNat_true] at later ⊢
      omega
    | turn checked stamped met =>
      by_cases hw : w.waiting=true
      · by_cases hr : w.last.any (fun t => rests t checked)=true
        · have later := ih ⟨false,w.last⟩
          rw [next_turn_of_rests hw hr]
          simp only [Event.isWish,List.countP_nil,Bool.toNat_false] at later ⊢
          omega
        · rw [Bool.not_eq_true] at hr
          have later := ih ⟨!met,some stamped⟩
          rw [next_turn_of_due hw hr]
          cases met with
          | true =>
            simp only [hw,Event.isWish,List.countP_singleton,Bool.not_true,Bool.toNat_false,
              Bool.toNat_true] at later ⊢
            simp only [if_true,Bool.false_eq_true,if_false] at later ⊢
            omega
          | false =>
            simp only [hw,Event.isWish,List.countP_singleton,Bool.not_false,
              Bool.toNat_true] at later ⊢
            simp only [Bool.false_eq_true,if_false] at later ⊢
            omega
      · rw [Bool.not_eq_true] at hw
        have later := ih w
        rw [next_turn_of_not_waiting hw]
        simp only [Event.isWish,List.countP_nil,Bool.false_eq_true,if_false] at later ⊢
        omega

/-- Nothing is tried that nobody wishes for. -/
theorem run_of_not_waiting {es : List (Event τ)} (hw : w.waiting=false)
    (he : ∀ e ∈ es,e.isWish=false) : w.run rests es=(w,[]) := by
  induction es with
  | nil => rfl
  | cons e es ih =>
    have later := ih fun e' hm => he e' (List.mem_cons_of_mem _ hm)
    cases e with
    | wish => cases he _ List.mem_cons_self
    | turn checked stamped met => rw [run_cons,next_turn_of_not_waiting hw,later]; rfl

variable (rests) in
/-- What was tried in vain is tried again, without a new wish, only if it does not rest at its
very next turn. -/
theorem tried_again_iff (t : τ) {es : List (Event τ)} (he : ∀ e ∈ es,e.isWish=false) :
    ((⟨true,some t⟩ : Wish τ).run rests es).2≠[] ↔
      ∃ checked stamped met,es.head?=some (.turn checked stamped met) ∧
        rests t checked=false := by
  cases es with
  | nil => simp [run]
  | cons e es =>
    have quiet : ∀ e' ∈ es,e'.isWish=false := fun e' hm => he e' (List.mem_cons_of_mem _ hm)
    cases e with
    | wish => cases he _ List.mem_cons_self
    | turn checked stamped met =>
      cases hr : rests t checked with
      | true =>
        have dropped : (⟨true,some t⟩ : Wish τ).next rests (.turn checked stamped met)=
            (⟨false,some t⟩,[]) := next_turn_of_rests rfl (by simpa using hr)
        rw [run_cons,dropped,run_of_not_waiting rfl quiet]
        simp [hr]
      | false =>
        have tried : (⟨true,some t⟩ : Wish τ).next rests (.turn checked stamped met)=
            (⟨!met,some stamped⟩,[⟨checked,stamped,met⟩]) :=
          next_turn_of_due rfl (by simpa using hr)
        rw [run_cons,tried]
        simp [hr]

end Wish

end TruthSeeker.Throttle
