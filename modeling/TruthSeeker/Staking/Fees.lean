import TruthSeeker.Model.Contract

namespace TruthSeeker

open Outcome

abbrev I128 := BitVec 128
abbrev LaneBytesSize := UInt64

structure ValidatorFeeState where
  balance : I128
  paidCumulSize : LaneBytesSize
  deriving DecidableEq,Inhabited

structure Fees where
  /-- Cumulative sizes of the data disseminated, waiting for the next distribution. -/
  pendingFees : List (ValidatorPublicKey × LaneBytesSize)
  balances : Std.ExtTreeMap ValidatorPublicKey ValidatorFeeState

namespace Fees

def empty : Fees := ⟨[],∅⟩

/-- Adds to the balance of a validator, which starts at zero. -/
def credit (balances : Std.ExtTreeMap ValidatorPublicKey ValidatorFeeState)
    (holder : ValidatorPublicKey) (amount : I128) :
    Std.ExtTreeMap ValidatorPublicKey ValidatorFeeState :=
  let state := balances.getD holder ⟨0,0⟩
  balances.insert holder { state with balance := state.balance+amount }

def depositForFees (self : Fees) (holder : ValidatorPublicKey) (amount : U128) : Fees :=
  { self with balances := credit self.balances holder amount }

def payForDadi (self : Fees) (disseminator : ValidatorPublicKey) (cumulSize : LaneBytesSize) :
    Fees :=
  { self with pendingFees := self.pendingFees++[(disseminator,cumulSize)] }

/-- Charges one disseminator and shares the fee among the bonded validators. -/
def distributeOne (bonded : List ValidatorPublicKey)
    (balances : Std.ExtTreeMap ValidatorPublicKey ValidatorFeeState)
    (disseminator : ValidatorPublicKey) (cumulSize : LaneBytesSize) :
    Outcome Unit × Std.ExtTreeMap ValidatorPublicKey ValidatorFeeState :=
  match balances[disseminator]? with
  | none => (err "Logic issue: disseminator not found in balances",balances)
  | some state =>
      if cumulSize<state.paidCumulSize then
        (err s!"Logic issue: cumul_size should always increase. {cumulSize} < {state.paidCumulSize}",
          balances)
      else
        let fee : I128 := BitVec.ofNat 128 (cumulSize-state.paidCumulSize).toNat
        let balances := balances.insert disseminator ⟨state.balance-fee,cumulSize⟩
        if bonded.length=0 then (Outcome.panic "attempt to divide by zero",balances)
        else
          let feePerValidator := fee.sdiv (BitVec.ofNat 128 bonded.length)
          (.ok (),bonded.foldl (fun m validator => credit m validator feePerValidator) balances)

/-- The pending fees in order. The first failure stops the loop, and what it has charged so
far stays charged. -/
def distributeAll (bonded : List ValidatorPublicKey) :
    List (ValidatorPublicKey × LaneBytesSize) →
      Std.ExtTreeMap ValidatorPublicKey ValidatorFeeState →
      Outcome Unit × Std.ExtTreeMap ValidatorPublicKey ValidatorFeeState
  | [],balances => (.ok (),balances)
  | (disseminator,cumulSize)::pending,balances =>
      match distributeOne bonded balances disseminator cumulSize with
      | (.ok (),balances) => distributeAll bonded pending balances
      | stopped => stopped

def distribute (self : Fees) (bonded : List ValidatorPublicKey) : Outcome Unit × Fees :=
  let (result,balances) := distributeAll bonded self.pendingFees self.balances
  (result,⟨[],balances⟩)

end Fees

end TruthSeeker
