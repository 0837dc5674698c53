import Mathlib.Data.BitVec
import Mathlib.Tactic.Abel
import TruthSeeker.Hyllar.Contract
import TruthSeeker.Sdk.Guest

namespace TruthSeeker

open Bytes Borsh Sdk

abbrev TokenPair := String × String
abbrev TokenPairAmount := U128 × U128

/-- Two tokens, the lesser one first if they come from `new`. -/
structure UnorderedTokenPair where
  a : String
  b : String
  deriving DecidableEq

namespace UnorderedTokenPair

def new (x y : String) : UnorderedTokenPair := if x≤y then ⟨x,y⟩ else ⟨y,x⟩

def layout : Layout UnorderedTokenPair (String × String) where
  fields p := (p.a,p.b)
  make := fun (a,b) => ⟨a,b⟩
  make_fields _ := rfl

instance : Borsh UnorderedTokenPair := layout.borsh

instance : Ord UnorderedTokenPair := ⟨fun p q => compare (p.a,p.b) (q.a,q.b)⟩

instance : Std.TransOrd UnorderedTokenPair where
  eq_swap := fun {p q} => Std.OrientedOrd.eq_swap (a := (p.a,p.b)) (b := (q.a,q.b))
  isLE_trans := fun {p q r} => Std.TransOrd.isLE_trans
    (a := (p.a,p.b)) (b := (q.a,q.b)) (c := (r.a,r.b))

instance : Std.LawfulEqOrd UnorderedTokenPair where
  compare_self := fun {p} => Std.ReflOrd.compare_self (a := (p.a,p.b))
  eq_of_compare := by
    intro p q h
    have same : (p.a,p.b)=(q.a,q.b) := Std.LawfulEqOrd.eq_of_compare h
    cases p
    cases q
    simpa using same

end UnorderedTokenPair

inductive AmmAction where
  /-- The user swaps the first token of the pair for the second one. -/
  | swap (pair : TokenPair) (amounts : TokenPairAmount)
  | newPair (pair : TokenPair) (amounts : TokenPairAmount)
  deriving DecidableEq

instance : Borsh AmmAction where
  ser | .swap pair amounts => tagged 0 (pair,amounts)
      | .newPair pair amounts => tagged 1 (pair,amounts)
  de | 0::bs => payload (fun (p : TokenPair × TokenPairAmount) => .swap p.1 p.2) bs
     | 1::bs => payload (fun (p : TokenPair × TokenPairAmount) => .newPair p.1 p.2) bs
     | _ => none

/-- The reserves of the pairs. -/
structure Amm where
  pairs : Std.ExtTreeMap UnorderedTokenPair TokenPairAmount

namespace Amm

def layout : Layout Amm (Std.ExtTreeMap UnorderedTokenPair TokenPairAmount) where
  fields self := self.pairs
  make pairs := ⟨pairs⟩
  make_fields _ := rfl

instance : Borsh Amm := layout.borsh

variable (quote : String → String) (self : Amm)

/-- The commitment is the whole state. -/
def commit : Outcome StateCommitment :=
  Outcome.fromOption (ser self) (.panic "Failed to encode AmmState")

/-- What is paid out of one reserve for an amount into the other; the sums and products wrap. -/
def paidOut (reserve paired fromAmount : U128) : Outcome U128 :=
  if reserve+fromAmount=0 then Outcome.panic "attempt to divide by zero"
  else .ok (paired-reserve*paired/(reserve+fromAmount))

def getPairedAmount (tokenA tokenB : String) (amountA : U128) : Outcome (Option U128) :=
  match self.pairs[UnorderedTokenPair.new tokenA tokenB]? with
  | some (x,y) => (paidOut x y amountA).map some
  | none => .ok none

/-- `Debug` of a pair, where `quote` is `Debug` of a string. -/
def debugPair (pair : UnorderedTokenPair) : String :=
  "UnorderedTokenPair \x7b a: "++quote pair.a++", b: "++quote pair.b++" \x7d"

def createNewPair (pair : TokenPair) (amounts : TokenPairAmount) : Outcome String × Amm :=
  if pair.1=pair.2 then (.error (.err "Swap can only happen between two different tokens"),self)
  else
    let normalizedPair := UnorderedTokenPair.new pair.1 pair.2
    if self.pairs.contains normalizedPair then
      (.error (.err s!"Pair {debugPair quote normalizedPair} already exists"),self)
    else
      (.ok s!"Pair {debugPair quote normalizedPair} created",
        ⟨self.pairs.insert normalizedPair amounts⟩)

/-- The reserves are updated before the amount received is checked. -/
def verifySwap (pair : TokenPair) (fromAmount toAmount : U128) : Outcome String × Amm :=
  if pair.1=pair.2 then (.error (.err "Swap can only happen between two different tokens"),self)
  else
    let normalizedPair := UnorderedTokenPair.new pair.1 pair.2
    match self.pairs[normalizedPair]? with
    | none =>
        (.error (.err s!"Pair ({quote pair.1}, {quote pair.2}) not found in AMM state"),self)
    | some (prevX,prevY) =>
        let paid := if pair.1≤pair.2 then paidOut prevX prevY fromAmount
          else paidOut prevY prevX fromAmount
        match paid with
        | .error fault => (.error fault,self)
        | .ok amount =>
            let reserves := if pair.1≤pair.2 then (prevX+fromAmount,prevY-amount)
              else (prevX-amount,prevY+fromAmount)
            let next : Amm := ⟨self.pairs.insert normalizedPair reserves⟩
            if amount<toAmount ∨ toAmount<amount*98/100 then
              (.error (.err s!"Invalid swap: expected to receive between {(amount*100/102).toNat} and {amount.toNat} {pair.2}"),
                next)
            else
              (.ok s!"Swap of {fromAmount.toNat} {pair.1} for {toAmount.toNat} {pair.2} is valid",next)

/-- The blobs that must move the tokens of an action, and the context without them. -/
def consumeCallees (executionCtx : ExecutionContext) : AmmAction → Outcome ExecutionContext
  | .swap pair amounts => do
      let rest ← executionCtx.isInCalleeBlobs pair.1
        (HyllarAction.transferFrom executionCtx.caller executionCtx.contractName amounts.1)
      rest.isInCalleeBlobs pair.2 (HyllarAction.transfer executionCtx.caller amounts.2)
  | .newPair pair amounts => do
      let rest ← executionCtx.isInCalleeBlobs pair.1
        (HyllarAction.transferFrom executionCtx.caller executionCtx.contractName amounts.1)
      rest.isInCalleeBlobs pair.2
        (HyllarAction.transferFrom executionCtx.caller executionCtx.contractName amounts.2)

def runAction : AmmAction → Outcome String × Amm
  | .swap pair amounts => self.verifySwap quote pair amounts.1 amounts.2
  | .newPair pair amounts => self.createNewPair quote pair amounts

def execute (calldata : Calldata) : Outcome (Bytes × ExecutionContext × List OnchainEffect) × Amm :=
  match parseCalldata AmmAction calldata with
  | .error fault => (.error fault,self)
  | .ok (action,executionCtx) =>
      match consumeCallees executionCtx action with
      | .error fault => (.error fault,self)
      | .ok executionCtx =>
          let (output,next) := self.runAction quote action
          (output.map fun text => (utf8 text,executionCtx,[]),next)

end Amm

end TruthSeeker

namespace TruthSeeker.Amm

variable {quote : String → String} {self : Amm} {pair : TokenPair} {fromAmount toAmount : U128}
  {reserve paired : U128}

/-- The stored order of the reserves of the two tokens of a pair. -/
def oriented (pair : TokenPair) (reserve paired : U128) : TokenPairAmount :=
  if pair.1≤pair.2 then (reserve,paired) else (paired,reserve)

/-- The reserve that is left of the second token. -/
def leftOver (reserve paired fromAmount : U128) : U128 := reserve*paired/(reserve+fromAmount)

/-- A swap that gets as far as the update of the reserves, the one of its first token first. -/
structure Exchanges (amm : Amm) (pair : TokenPair) (fromAmount reserve paired : U128) : Prop where
  distinct : pair.1≠pair.2
  stored : amm.pairs[UnorderedTokenPair.new pair.1 pair.2]?=some (oriented pair reserve paired)
  divisor : reserve+fromAmount≠0

def exchange (self : Amm) (pair : TokenPair) (fromAmount reserve paired : U128) : Amm :=
  ⟨self.pairs.insert (UnorderedTokenPair.new pair.1 pair.2)
    (oriented pair (reserve+fromAmount) (leftOver reserve paired fromAmount))⟩

/-- The amount to receive is above the expected one or below 98% of it. -/
def OutOfRange (amount toAmount : U128) : Prop := amount<toAmount ∨ toAmount<amount*98/100

instance (amount toAmount : U128) : Decidable (OutOfRange amount toAmount) :=
  inferInstanceAs (Decidable (_ ∨ _))

theorem sub_leftOver (reserve paired fromAmount : U128) :
    paired-(paired-reserve*paired/(reserve+fromAmount))=leftOver reserve paired fromAmount := by
  rw [leftOver]
  abel

theorem oriented_injective {r p r' p' : U128} (h : oriented pair r p=oriented pair r' p') :
    r=r' ∧ p=p' := by
  unfold oriented at h
  split_ifs at h with order
  · exact Prod.mk.inj h
  · exact (Prod.mk.inj h).symm

/-- A swap that updates the reserves, and then accepts or refuses the amount to receive. -/
theorem verifySwap_of_exchanges (quote : String → String) (toAmount : U128)
    (h : self.Exchanges pair fromAmount reserve paired) :
    (self.verifySwap quote pair fromAmount toAmount).2=
      self.exchange pair fromAmount reserve paired ∧
    if OutOfRange (paired-leftOver reserve paired fromAmount) toAmount
      then ∃ m,(self.verifySwap quote pair fromAmount toAmount).1=.error (.err m)
      else ∃ text,(self.verifySwap quote pair fromAmount toAmount).1=.ok text := by
  have stored := h.stored
  have paid : paidOut reserve paired fromAmount=
      .ok (paired-leftOver reserve paired fromAmount) := by
    rw [paidOut,if_neg h.divisor]
    rfl
  have kept : paired-(paired-leftOver reserve paired fromAmount)=
      leftOver reserve paired fromAmount := sub_leftOver reserve paired fromAmount
  unfold exchange oriented
  by_cases order : pair.1≤pair.2
  · simp only [oriented,order,if_true] at stored
    simp only [verifySwap,h.distinct,if_false,stored,order,if_true,paid,kept,OutOfRange]
    split_ifs with refused
    · exact ⟨rfl,_,rfl⟩
    · exact ⟨rfl,_,rfl⟩
  · simp only [oriented,order,if_false] at stored
    simp only [verifySwap,h.distinct,if_false,stored,order,paid,kept,OutOfRange]
    split_ifs with refused
    · exact ⟨rfl,_,rfl⟩
    · exact ⟨rfl,_,rfl⟩

theorem verifySwap_of_not_exchanges (quote : String → String) (toAmount : U128)
    (h : ∀ reserve paired,¬self.Exchanges pair fromAmount reserve paired) :
    ∃ fault,self.verifySwap quote pair fromAmount toAmount=(.error fault,self) := by
  by_cases same : pair.1=pair.2
  · exact ⟨_,by rw [verifySwap,if_pos same]⟩
  · cases stored : self.pairs[UnorderedTokenPair.new pair.1 pair.2]? with
    | none => exact ⟨_,by simp only [verifySwap,same,if_false,stored]; rfl⟩
    | some amounts =>
      obtain ⟨x,y⟩ := amounts
      by_cases order : pair.1≤pair.2
      · have zero : x+fromAmount=0 := by
          by_contra divisor
          refine h x y ⟨same,?_,divisor⟩
          rw [stored,oriented,if_pos order]
        refine ⟨.panic "attempt to divide by zero",?_⟩
        simp only [verifySwap,same,if_false,stored,order,if_true,paidOut,zero,Outcome.panic]
      · have zero : y+fromAmount=0 := by
          by_contra divisor
          refine h y x ⟨same,?_,divisor⟩
          rw [stored,oriented,if_neg order]
        refine ⟨.panic "attempt to divide by zero",?_⟩
        simp only [verifySwap,same,if_false,stored,order,if_true,paidOut,zero,Outcome.panic]

/-- Rounding down what is left of the second reserve never favours the pool. -/
theorem product_leftOver (h : reserve+fromAmount≠0) :
    (reserve+fromAmount).toNat*(leftOver reserve paired fromAmount).toNat≤
      reserve.toNat*paired.toNat ∧
    (reserve.toNat*paired.toNat≤
        (reserve+fromAmount).toNat*(leftOver reserve paired fromAmount).toNat ↔
      reserve.toNat*paired.toNat<2^128 ∧
        (reserve+fromAmount).toNat∣reserve.toNat*paired.toNat) := by
  have positive : 0<(reserve+fromAmount).toNat := by
    rw [Nat.pos_iff_ne_zero]
    intro zero
    exact h (BitVec.eq_of_toNat_eq zero)
  have left : (leftOver reserve paired fromAmount).toNat=
      reserve.toNat*paired.toNat%2^128/(reserve+fromAmount).toNat := by
    rw [leftOver,BitVec.toNat_udiv,BitVec.toNat_mul]
  rw [left]
  generalize reserve.toNat*paired.toNat=k
  generalize (reserve+fromAmount).toNat=d at positive ⊢
  have division := Nat.div_add_mod (k%2^128) d
  have wrapped := Nat.mod_le k (2^128)
  refine ⟨by omega,?_,?_⟩
  · intro enough
    have small : k<2^128 := by
      have bound := Nat.mod_lt k (show 0<2^128 by norm_num)
      omega
    refine ⟨small,Nat.dvd_of_mod_eq_zero ?_⟩
    rw [Nat.mod_eq_of_lt small] at division enough
    omega
  · rintro ⟨small,divides⟩
    rw [Nat.mod_eq_of_lt small,Nat.mul_div_cancel' divides]

structure Swap where
  pair : TokenPair
  fromAmount : U128
  toAmount : U128

/-- The product of the reserves of a pair, as integers. -/
def product (self : Amm) (key : UnorderedTokenPair) : Nat :=
  (self.pairs.getD key (0,0)).1.toNat*(self.pairs.getD key (0,0)).2.toNat

def Swap.key (swap : Swap) : UnorderedTokenPair := UnorderedTokenPair.new swap.pair.1 swap.pair.2

def swapped (quote : String → String) (self : Amm) (swap : Swap) : Outcome String × Amm :=
  self.verifySwap quote swap.pair swap.fromAmount swap.toAmount

/-- Swaps one after the other, all of them accepted. -/
def swapAll (quote : String → String) : Amm → List Swap → Option Amm
  | self,[] => some self
  | self,swap::swaps =>
      match self.swapped quote swap with
      | (.ok _,next) => swapAll quote next swaps
      | _ => none

/-- The product of the reserves fits and is a multiple of the reserve that the swap adds to. -/
def Divides (self : Amm) (swap : Swap) : Prop := ∀ reserve paired,
  self.pairs[swap.key]?=some (oriented swap.pair reserve paired) →
    reserve.toNat*paired.toNat<2^128 ∧
      (reserve+swap.fromAmount).toNat∣reserve.toNat*paired.toNat

/-- This holds of each swap of the pair, in the state that the swap meets. -/
def DividesAlong (quote : String → String) (key : UnorderedTokenPair) : Amm → List Swap → Prop
  | _,[] => True
  | self,swap::swaps => (swap.key=key → self.Divides swap) ∧
      DividesAlong quote key (self.swapped quote swap).2 swaps

theorem mul_oriented (r p : U128) :
    (oriented pair r p).1.toNat*(oriented pair r p).2.toNat=r.toNat*p.toNat := by
  rw [oriented]
  split_ifs
  · rfl
  · exact Nat.mul_comm _ _

theorem product_swapped {swap : Swap} {text : String} {next : Amm} (key : UnorderedTokenPair)
    (h : self.swapped quote swap=(.ok text,next)) :
    next.product key≤ self.product key ∧
    (self.product key≤next.product key ↔ (swap.key=key → self.Divides swap)) := by
  by_cases some_exchange : ∃ reserve paired,
      self.Exchanges swap.pair swap.fromAmount reserve paired
  · obtain ⟨reserve,paired,exchanges⟩ := some_exchange
    have state := (verifySwap_of_exchanges quote swap.toAmount exchanges).1
    rw [swapped] at h
    rw [h] at state
    obtain rfl := state
    by_cases here : swap.key=key
    · subst here
      have before : self.product swap.key=reserve.toNat*paired.toNat := by
        rw [product,Std.ExtTreeMap.getD_eq_getD_getElem?,Swap.key,exchanges.stored]
        exact mul_oriented reserve paired
      have after : (self.exchange swap.pair swap.fromAmount reserve paired).product swap.key=
          (reserve+swap.fromAmount).toNat*(leftOver reserve paired swap.fromAmount).toNat := by
        rw [product,exchange,Swap.key,Std.ExtTreeMap.getD_insert_self]
        exact mul_oriented _ _
      rw [before,after]
      refine ⟨(product_leftOver exchanges.divisor).1,?_⟩
      rw [(product_leftOver exchanges.divisor).2]
      constructor
      · intro fits _ r p stored
        obtain ⟨rfl,rfl⟩ := oriented_injective
          (Option.some.inj (exchanges.stored.symm.trans stored))
        exact fits
      · intro fits
        exact fits rfl reserve paired exchanges.stored
    · have same : (self.exchange swap.pair swap.fromAmount reserve paired).product key=
          self.product key := by
        rw [product,exchange,Std.ExtTreeMap.getD_insert]
        simp only [Std.LawfulEqOrd.compare_eq_iff_eq]
        rw [if_neg (show ¬UnorderedTokenPair.new swap.pair.1 swap.pair.2=key from here)]
        rfl
      rw [same]
      simp [here]
  · push Not at some_exchange
    obtain ⟨fault,refused⟩ := verifySwap_of_not_exchanges quote swap.toAmount some_exchange
    rw [swapped,refused] at h
    cases h

/-- The product of the reserves never grows over accepted swaps. It is kept exactly where
every division comes out even. -/
theorem product_swapAll {swaps : List Swap} {next : Amm} (key : UnorderedTokenPair)
    (h : swapAll quote self swaps=some next) :
    next.product key≤ self.product key ∧
    (self.product key≤next.product key ↔ self.DividesAlong quote key swaps) := by
  induction swaps generalizing self with
  | nil =>
    obtain rfl := Option.some.inj h
    simp [DividesAlong]
  | cons swap swaps ih =>
    rw [swapAll] at h
    split at h
    · rename_i text middle accepted
      obtain ⟨first,firstEven⟩ := product_swapped key accepted
      obtain ⟨rest,restEven⟩ := ih h
      have split : self.DividesAlong quote key (swap::swaps) ↔
          (swap.key=key → self.Divides swap) ∧ middle.DividesAlong quote key swaps := by
        rw [DividesAlong,accepted]
      rw [split,← firstEven,← restEven]
      constructor
      · omega
      · omega
    · cases h

section Examples

def pool (x y : U128) : Amm :=
  ⟨(∅ : Std.ExtTreeMap UnorderedTokenPair TokenPairAmount).insert ⟨"token1","token2"⟩ (x,y)⟩

/-- One unit of each token: 100 does not divide by 11. -/
def uneven : Swap := ⟨("token1","token2"),1,1⟩

/-- The swap that the tests of the contract run. -/
def even : Swap := ⟨("token2","token1"),50,10⟩

theorem product_swapAll_even :
    (pool 20 50).DividesAlong id ⟨"token1","token2"⟩ [even] := by
  have accepted : swapAll id (pool 20 50) [even]=
      some ((pool 20 50).exchange even.pair 50 50 20) := by
    have went : (pool 20 50).swapped id even=(.ok "Swap of 50 token2 for 10 token1 is valid",
        (pool 20 50).exchange even.pair 50 50 20) := rfl
    rw [swapAll,went]
    rfl
  exact (product_swapAll ⟨"token1","token2"⟩ accepted).2.mp (by decide +kernel)

theorem not_product_swapped : ¬∀ (self : Amm) (swap : Swap) (text : String) (next : Amm),
    self.swapped id swap=(.ok text,next) → self.product swap.key≤next.product swap.key := by
  intro h
  have drained := h (pool 10 10) uneven _ _ (Prod.ext (by rfl) rfl)
  exact absurd drained (by decide +kernel)

end Examples

end TruthSeeker.Amm
