import Mathlib.Algebra.Group.Nat.Defs
import TruthSeeker.Framework.Outcome

namespace TruthSeeker

open Outcome

theorem Outcome.not_quiet_of_panics {α : Type} {x : Outcome α} (h : x.panics=true) :
    ¬Quiet x := by
  rcases x with (m | m) | a
  · cases h
  · exact fun quiet => quiet m rfl
  · cases h

-- The operations on unsigned words of a build that checks its arithmetic.
namespace Checked

/-- A value, or a panic unless the condition holds. -/
def guarded {α : Type} (c : Prop) [Decidable c] (value : α) (text : String) : Outcome α :=
  if c then .ok value else Outcome.panic text

theorem guarded_eq_ok {α : Type} {c : Prop} [Decidable c] {value a : α} {text : String} :
    guarded c value text=.ok a ↔ c ∧ value=a := by
  unfold guarded
  split_ifs with h <;> simp [h]

theorem quiet_guarded_bind {α β : Type} {c : Prop} [Decidable c] {value : α} {text : String}
    {next : α → Outcome β} : Quiet (guarded c value text >>= next) ↔ c ∧ Quiet (next value) := by
  unfold guarded
  split_ifs with h
  · exact (and_iff_right h).symm
  · constructor
    · intro quiet
      exact absurd rfl (quiet text)
    · intro holds
      exact absurd holds.1 h

variable {w : Nat} (x y : BitVec w)

def add : Outcome (BitVec w) :=
  guarded (x.toNat+y.toNat<2^w) (x+y) "attempt to add with overflow"

def sub : Outcome (BitVec w) :=
  guarded (y.toNat≤x.toNat) (x-y) "attempt to subtract with overflow"

def mul : Outcome (BitVec w) :=
  guarded (x.toNat*y.toNat<2^w) (x*y) "attempt to multiply with overflow"

def div : Outcome (BitVec w) := guarded (y.toNat≠0) (x/y) "attempt to divide by zero"

variable {x y} {z : BitVec w}

theorem add_eq_ok : add x y=.ok z ↔ x.toNat+y.toNat<2^w ∧ z.toNat=x.toNat+y.toNat := by
  refine guarded_eq_ok.trans (and_congr_right fun fits => ?_)
  rw [← BitVec.toNat_inj,BitVec.toNat_add,Nat.mod_eq_of_lt fits,eq_comm]

theorem sub_eq_ok : sub x y=.ok z ↔ y.toNat≤x.toNat ∧ z.toNat=x.toNat-y.toNat := by
  refine guarded_eq_ok.trans (and_congr_right fun fits => ?_)
  rw [← BitVec.toNat_inj,BitVec.toNat_sub_of_le (BitVec.le_def.mpr fits),eq_comm]

theorem mul_eq_ok : mul x y=.ok z ↔ x.toNat*y.toNat<2^w ∧ z.toNat=x.toNat*y.toNat := by
  refine guarded_eq_ok.trans (and_congr_right fun fits => ?_)
  rw [← BitVec.toNat_inj,BitVec.toNat_mul,Nat.mod_eq_of_lt fits,eq_comm]

theorem div_eq_ok : div x y=.ok z ↔ y.toNat≠0 ∧ z.toNat=x.toNat/y.toNat := by
  refine guarded_eq_ok.trans (and_congr_right fun _ => ?_)
  rw [← BitVec.toNat_inj,BitVec.toNat_udiv,eq_comm]

end Checked

end TruthSeeker
