import Mathlib.Algebra.BigOperators.Group.Finset.Basic
import Mathlib.Algebra.BigOperators.Ring.Finset
import Mathlib.Tactic.Ring

namespace TruthSeeker.Ledger

open Finset

variable {V : Type} [DecidableEq V] {payees : List V} {accounts : Finset V}

/-- How many shares a payee has. -/
def shares (payees : List V) (v : V) : Nat := payees.count v

@[simp] theorem shares_nil (v : V) : shares [] v=0 := rfl

@[simp] theorem shares_cons (payee v : V) :
    shares (payee::payees) v=shares payees v+if v=payee then 1 else 0 := by
  unfold shares
  by_cases same : v=payee
  · simp [same]
  · have apart : ¬payee=v := fun eq => same eq.symm
    simp [same,apart]

/-- The balances after a payment that is shared equally, each share rounded down. -/
def share (payees : List V) (payer : V) (fee : Int) (balance : V → Int) : V → Int := fun v =>
  balance v-(if v=payer then fee else 0)+shares payees v*(fee/payees.length)

/-- Each payer pays for what it has used and not paid yet. -/
def settle (payees : List V) : List (V × Nat) → (V → Nat) → (V → Int) → V → Int
  | [],_,balance => balance
  | (payer,used)::pending,paid,balance =>
      settle payees pending (Function.update paid payer used)
        (share payees payer (used-paid payer : Int) balance)

theorem sum_shares (hs : ∀ v ∈ payees,v∈accounts) :
    ∑ v ∈ accounts,shares payees v=payees.length := by
  have listed : payees.toFinset⊆accounts := fun v hv => hs v (List.mem_toFinset.mp hv)
  have none : ∀ v ∈ accounts,v∉payees.toFinset → shares payees v=0 := by
    intro v _ hv
    exact List.count_eq_zero_of_not_mem fun member => hv (List.mem_toFinset.mpr member)
  rw [← sum_subset listed none]
  exact List.sum_toFinset_count_eq_length payees

/-- A payment that can be shared without a rest keeps the sum of the balances. -/
theorem sum_share {payer : V} {fee : Int} {balance : V → Int} (hp : payer∈accounts)
    (hs : ∀ v ∈ payees,v∈accounts) (hd : (payees.length : Int)∣fee) :
    ∑ v ∈ accounts,share payees payer fee balance v=∑ v ∈ accounts,balance v := by
  have paid : ∑ v ∈ accounts,(if v=payer then fee else 0)=fee := by
    rw [sum_ite_eq',if_pos hp]
  have received : ∑ v ∈ accounts,(shares payees v : Int)*(fee/payees.length)=fee := by
    rw [← sum_mul,← Nat.cast_sum,sum_shares hs]
    exact Int.mul_ediv_cancel' hd
  unfold share
  rw [sum_add_distrib,sum_sub_distrib,paid,received]
  ring

/-- Payments that can all be shared without a rest keep the sum of the balances. -/
theorem sum_settle {pending : List (V × Nat)} {paid : V → Nat} {balance : V → Int}
    (hp : ∀ entry ∈ pending,entry.1∈accounts) (hs : ∀ v ∈ payees,v∈accounts)
    (hd : ∀ entry ∈ pending,(payees.length : Int)∣entry.2-paid entry.1) :
    ∑ v ∈ accounts,settle payees pending paid balance v=∑ v ∈ accounts,balance v := by
  induction pending generalizing paid balance with
  | nil => rfl
  | cons entry pending ih =>
    obtain ⟨payer,used⟩ := entry
    have first := hd (payer,used) List.mem_cons_self
    have rest : ∀ entry ∈ pending,
        (payees.length : Int)∣entry.2-Function.update paid payer used entry.1 := by
      intro entry he
      have due := hd entry (List.mem_cons_of_mem _ he)
      by_cases same : entry.1=payer
      · rw [same] at due ⊢
        rw [Function.update_self]
        have telescope : (entry.2 : Int)-used=(entry.2-paid payer)-(used-paid payer) := by ring
        rw [telescope]
        exact dvd_sub due first
      · rwa [Function.update_of_ne same]
    rw [settle,ih (fun entry he => hp entry (List.mem_cons_of_mem _ he)) rest]
    exact sum_share (hp _ List.mem_cons_self) hs first

end TruthSeeker.Ledger
