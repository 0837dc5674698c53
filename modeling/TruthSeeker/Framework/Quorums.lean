import Mathlib.Algebra.BigOperators.Group.Finset.Basic
import Mathlib.Algebra.Order.BigOperators.Group.Finset
import Mathlib.Tactic.Linarith

namespace TruthSeeker.Quorums

variable {α : Type} (power : α → Nat)

/-- What the voters hold together. -/
def weight (voters : Finset α) : Nat := ∑ v ∈ voters,power v

/-- More than two thirds of all, rounded down. -/
def IsQuorum (all voters : Finset α) : Prop :=
  voters⊆all ∧ 2*(weight power all/3)+1≤weight power voters

variable {power} {all a b : Finset α}

theorem weight_mono (h : a⊆b) : weight power a≤weight power b :=
  Finset.sum_le_sum_of_subset h

variable [DecidableEq α]

/-- What two groups hold together beyond the whole is held by their common members. -/
theorem weight_add_le (ha : a⊆all) (hb : b⊆all) :
    weight power a+weight power b≤weight power all+weight power (a∩b) := by
  have both : weight power (a∪b)+weight power (a∩b)=weight power a+weight power b :=
    Finset.sum_union_inter
  have part : weight power (a∪b)≤weight power all := weight_mono (Finset.union_subset ha hb)
  omega

theorem IsQuorum.inter (ha : IsQuorum power all a) (hb : IsQuorum power all b) :
    2*(2*(weight power all/3)+1)≤weight power all+weight power (a∩b) := by
  have shared : weight power a+weight power b≤weight power all+weight power (a∩b) :=
    weight_add_le ha.1 hb.1
  have first := ha.2
  have second := hb.2
  omega

/-- Two quorums share a third of the whole, rounded down. -/
theorem IsQuorum.third_le_inter (ha : IsQuorum power all a) (hb : IsQuorum power all b) :
    weight power all/3≤weight power (a∩b) := by
  have shared := ha.inter hb
  omega

/-- They share more than that unless two are left over. -/
theorem IsQuorum.third_lt_inter (ha : IsQuorum power all a) (hb : IsQuorum power all b)
    (left : weight power all%3≠2) : weight power all/3<weight power (a∩b) := by
  have shared := ha.inter hb
  omega

/-- Three voters of which the second and third are in no common quorum of two. -/
theorem isQuorum_pair (power : α → Nat) {x y z : α} (xy : x≠y) (xz : x≠z) (yz : y≠z) {f : Nat}
    (hx : power x=f) (hy : power y=f+1) (hz : power z=f+1) :
    weight power {x,y,z}=3*f+2 ∧ IsQuorum power {x,y,z} {x,y} ∧
      IsQuorum power {x,y,z} {x,z} ∧ weight power ({x,y}∩{x,z})=f := by
  have whole : weight power {x,y,z}=3*f+2 := by
    rw [weight,Finset.sum_insert (by simp [xy,xz]),Finset.sum_pair yz,hx,hy,hz]
    omega
  have third : (3*f+2)/3=f := by omega
  have common : ({x,y} : Finset α)∩{x,z}={x} := by
    ext v
    simp only [Finset.mem_inter,Finset.mem_insert,Finset.mem_singleton]
    constructor
    · intro h
      by_contra apart
      have second : v=y := h.1.resolve_left apart
      have third : v=z := h.2.resolve_left apart
      exact yz (second.symm.trans third)
    · intro h
      exact ⟨Or.inl h,Or.inl h⟩
  refine ⟨whole,⟨?_,?_⟩,⟨?_,?_⟩,?_⟩
  · simp [Finset.subset_iff]
  · rw [whole,third,weight,Finset.sum_pair xy,hx,hy]
    omega
  · intro v
    simp only [Finset.mem_insert,Finset.mem_singleton]
    tauto
  · rw [whole,third,weight,Finset.sum_pair xz,hx,hz]
    omega
  · rw [common,weight,Finset.sum_singleton,hx]

end TruthSeeker.Quorums
