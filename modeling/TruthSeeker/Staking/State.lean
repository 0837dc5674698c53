import Mathlib.Data.List.Dedup
import Mathlib.Data.UInt
import TruthSeeker.Model.Block
import TruthSeeker.Staking.Fees

namespace TruthSeeker

open Outcome

structure Staking where
  stakes : Std.ExtTreeMap Identity U128
  delegations : Std.ExtTreeMap ValidatorPublicKey (List Identity)
  rewarded : Std.ExtTreeMap ValidatorPublicKey (List BlockHeight)
  /-- The validators that are part of consensus. -/
  bonded : List ValidatorPublicKey
  totalBond : U128
  fees : Fees

/-- Minimal stake necessary to be part of consensus. -/
def MIN_STAKE : U128 := 32

namespace Staking

def new : Staking := ⟨∅,∅,∅,[],0,Fees.empty⟩

variable (self : Staking)

def isKnown (key : ValidatorPublicKey) : Bool := self.delegations.contains key

def isBonded (pubkey : ValidatorPublicKey) : Bool := self.bonded.any (fun v => v=pubkey)

def getStake (validator : ValidatorPublicKey) : Option U128 :=
  self.delegations[validator]?.map
    fun delegators => (delegators.map fun delegator => self.stakes.getD delegator 0).sum

def bond (validator : ValidatorPublicKey) : Except String Staking :=
  if self.isBonded validator then .error "Validator already bonded"
  else
    match self.getStake validator with
    | none => .error "Validator does not have enough stake"
    | some stake =>
        if stake<MIN_STAKE then .error "Validator does not have enough stake"
        else .ok
          { self with
            bonded := (self.bonded++[validator]).mergeSort (fun v w => (compare v w).isLE)
            totalBond := self.totalBond+stake }

def computeF : U128 := self.totalBond/3

/-- The stake of the listed validators, each counted once. Their order is not read. -/
def computeVotingPower (validators : List ValidatorPublicKey) : U128 :=
  (validators.dedup.filterMap self.getStake).sum

def stake (staker : Identity) (amount : U128) : Except String (String × Staking) :=
  if self.stakes.contains staker then
    .error s!"Staking balance is frozen for {staker} (already staked)"
  else .ok ("Staked",{ self with stakes := self.stakes.insert staker amount })

def delegateTo (staker : Identity) (validator : ValidatorPublicKey) :
    Except String (String × Staking) :=
  if self.delegations.toList.any (fun p => p.2.contains staker) then .error "Already delegated"
  else
    let delegators := self.delegations.getD validator []
    .ok ("Delegated",
      { self with delegations := self.delegations.insert validator (delegators++[staker]) })

def depositForFees (holder : ValidatorPublicKey) (amount : U128) : Staking :=
  { self with fees := self.fees.depositForFees holder amount }

def payForDadi (laneId : LaneId) (cumulSize : LaneBytesSize) : Staking :=
  { self with fees := self.fees.payForDadi laneId cumulSize }

def distribute : Outcome Unit × Staking :=
  let (result,fees) := self.fees.distribute self.bonded
  (result,{ self with fees := fees })

/-- An operation that fails changes nothing. -/
def applied : Except String Staking → Outcome Unit × Staking
  | .ok next => (.ok (),next)
  | .error e => (err e,self)

def processAction (entry : Identity × StakingAction) : Outcome Unit × Staking :=
  match entry.2 with
  | .stake amount => self.applied ((self.stake entry.1 amount).map Prod.snd)
  | .delegate validator => self.applied ((self.delegateTo entry.1 validator).map Prod.snd)
  | .distribute _ => (Outcome.panic "not yet implemented",self)
  | .depositForFees holder amount => (.ok (),self.depositForFees holder amount)

/-- The entries in order, up to the first that fails. What was done before it stays. -/
def processEach {α : Type} (process : Staking → α → Outcome Unit × Staking) :
    List α → Staking → Outcome Unit × Staking
  | [],self => (.ok (),self)
  | entry::entries,self =>
      match process self entry with
      | (.ok (),next) => processEach process entries next
      | stopped => stopped

def processBlock (block : Block) : Outcome Unit × Staking :=
  match processEach processAction block.stakingActions self with
  | (.ok (),next) =>
      processEach (fun self validator => self.applied (self.bond validator))
        block.newBoundedValidators next
  | stopped => stopped

end Staking

end TruthSeeker
