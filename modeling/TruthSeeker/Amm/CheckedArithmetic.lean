import TruthSeeker.Amm.ConstantProduct
import TruthSeeker.Framework.CheckedWords

namespace TruthSeeker.Amm

open Outcome Checked

section Model
variable (quote : String → String) (self : Amm)

/-- `paidOut` of a build that checks its arithmetic. -/
def paidOutChecked (reserve paired fromAmount : U128) : Outcome U128 := do
  let k ← mul reserve paired
  let total ← add reserve fromAmount
  let left ← div k total
  sub paired left

def getPairedAmountChecked (tokenA tokenB : String) (amountA : U128) :
    Outcome (Option U128) :=
  match self.pairs[UnorderedTokenPair.new tokenA tokenB]? with
  | some (x,y) => (paidOutChecked x y amountA).map some
  | none => .ok none

/-- The test of the amount to receive. The lower bound is computed where it is read only. -/
def refuses (toAmount amount : U128) : Outcome Bool :=
  if amount<toAmount then .ok true
  else do
    let scaled ← mul amount 98
    return decide (toAmount<scaled/100)

/-- The end of `verify_swap`. -/
def checkReceived (pair : TokenPair) (fromAmount toAmount amount : U128) : Outcome String := do
  let refused ← refuses toAmount amount
  if refused=true then do
    let scaled ← mul amount 100
    err s!"Invalid swap: expected to receive between {(scaled/102).toNat} and {amount.toNat} {pair.2}"
  else return s!"Swap of {fromAmount.toNat} {pair.1} for {toAmount.toNat} {pair.2} is valid"

/-- `verify_swap` of such a build. The updates repeat a sum and a difference that have been
checked before. -/
def verifySwapChecked (pair : TokenPair) (fromAmount toAmount : U128) : Outcome String × Amm :=
  if pair.1=pair.2 then (.error (.err "Swap can only happen between two different tokens"),self)
  else
    let normalizedPair := UnorderedTokenPair.new pair.1 pair.2
    match self.pairs[normalizedPair]? with
    | none =>
        (.error (.err s!"Pair ({quote pair.1}, {quote pair.2}) not found in AMM state"),self)
    | some (prevX,prevY) =>
        let paid := if pair.1≤pair.2 then paidOutChecked prevX prevY fromAmount
          else paidOutChecked prevY prevX fromAmount
        match paid with
        | .error fault => (.error fault,self)
        | .ok amount =>
            let reserves := if pair.1≤pair.2 then (prevX+fromAmount,prevY-amount)
              else (prevX-amount,prevY+fromAmount)
            (checkReceived pair fromAmount toAmount amount,
              ⟨self.pairs.insert normalizedPair reserves⟩)

end Model

section Conditions

/-- What is paid out of one reserve for an amount into the other, as natural numbers. -/
def paid (reserve paired amount : Nat) : Nat := paired-reserve*paired/(reserve+amount)

/-- The numbers that lead to the amount that is paid out fit in a word. -/
structure Payable (reserve paired amount : U128) : Prop where
  product : reserve.toNat*paired.toNat<2^128
  total : reserve.toNat+amount.toNat<2^128
  divisor : reserve.toNat+amount.toNat≠0

/-- The amount is not more than what is paid out, and not below 98% of it. -/
structure Received (paidOut toAmount : Nat) : Prop where
  most : toAmount≤paidOut
  least : paidOut*98/100≤toAmount

instance (paidOut toAmount : Nat) : Decidable (Received paidOut toAmount) :=
  decidable_of_iff (toAmount≤paidOut ∧ paidOut*98/100≤toAmount)
    ⟨fun h => ⟨h.1,h.2⟩,fun h => ⟨h.most,h.least⟩⟩

theorem received_self (paidOut : Nat) : Received paidOut paidOut := ⟨le_rfl,by omega⟩

/-- The bounds of the amount to receive fit in a word where they are computed. -/
structure Comparable (paidOut toAmount : Nat) : Prop where
  lower : toAmount≤paidOut → paidOut*98<2^128
  shown : ¬Received paidOut toAmount → paidOut*100<2^128

end Conditions

variable {quote : String → String} {self : Amm} {pair : TokenPair}
  {reserve paired fromAmount toAmount amount : U128}

theorem div_le_paired : reserve.toNat*paired.toNat/(reserve.toNat+fromAmount.toNat)≤
    paired.toNat := by
  apply Nat.div_le_of_le_mul
  exact Nat.mul_le_mul_right _ (Nat.le_add_right _ _)

theorem paidOutChecked_eq_ok : paidOutChecked reserve paired fromAmount=.ok amount ↔
    Payable reserve paired fromAmount ∧
      amount.toNat=paid reserve.toNat paired.toNat fromAmount.toNat := by
  unfold paidOutChecked paid
  simp only [bind_eq_ok,mul_eq_ok,add_eq_ok,div_eq_ok,sub_eq_ok]
  constructor
  · rintro ⟨k,⟨product,hk⟩,total,⟨fits,ht⟩,left,⟨divisor,hl⟩,_,value⟩
    rw [ht] at divisor
    rw [hl,hk,ht] at value
    exact ⟨⟨product,fits,divisor⟩,value⟩
  · rintro ⟨⟨product,fits,divisor⟩,value⟩
    have k : (reserve*paired).toNat=reserve.toNat*paired.toNat := by
      rw [BitVec.toNat_mul,Nat.mod_eq_of_lt product]
    have total : (reserve+fromAmount).toNat=reserve.toNat+fromAmount.toNat := by
      rw [BitVec.toNat_add,Nat.mod_eq_of_lt fits]
    have left : (reserve*paired/(reserve+fromAmount)).toNat=
        reserve.toNat*paired.toNat/(reserve.toNat+fromAmount.toNat) := by
      rw [BitVec.toNat_udiv,k,total]
    refine ⟨reserve*paired,⟨product,k⟩,reserve+fromAmount,⟨fits,total⟩,
      reserve*paired/(reserve+fromAmount),⟨?_,?_⟩,?_,?_⟩
    · rw [total]
      exact divisor
    · rw [k,total]
      exact left
    · rw [left]
      exact div_le_paired
    · rw [value,left]

theorem exists_paidOutChecked (h : Payable reserve paired fromAmount) :
    ∃ amount : U128,paidOutChecked reserve paired fromAmount=.ok amount ∧
      amount.toNat=paid reserve.toNat paired.toNat fromAmount.toNat := by
  have fits : paid reserve.toNat paired.toNat fromAmount.toNat<2^128 :=
    (Nat.sub_le _ _).trans_lt paired.isLt
  have value := (BitVec.toNat_ofNat _ _).trans (Nat.mod_eq_of_lt fits)
  exact ⟨_,paidOutChecked_eq_ok.mpr ⟨h,value⟩,value⟩

theorem quiet_paidOutChecked : Quiet (paidOutChecked reserve paired fromAmount) ↔
    Payable reserve paired fromAmount := by
  constructor
  · intro quiet
    unfold paidOutChecked mul at quiet
    obtain ⟨product,quiet⟩ := quiet_guarded_bind.mp quiet
    obtain ⟨total,quiet⟩ := quiet_guarded_bind.mp quiet
    obtain ⟨divisor,_⟩ := quiet_guarded_bind.mp quiet
    rw [BitVec.toNat_add,Nat.mod_eq_of_lt total] at divisor
    exact ⟨product,total,divisor⟩
  · intro payable
    obtain ⟨amount,returned,_⟩ := exists_paidOutChecked payable
    rw [returned]
    exact Quiet.of_ok

theorem toNat_scaled_div {factor : U128} (h : amount.toNat*factor.toNat<2^128) :
    (amount*factor/100).toNat=amount.toNat*factor.toNat/100 := by
  rw [BitVec.toNat_udiv,BitVec.toNat_mul,Nat.mod_eq_of_lt h]
  rfl

/-- The test is made where the lower bound fits, or is not needed. -/
theorem refuses_eq (h : toAmount.toNat≤amount.toNat → amount.toNat*98<2^128) :
    refuses toAmount amount=.ok (decide ¬Received amount.toNat toAmount.toNat) := by
  unfold refuses
  split_ifs with more
  · have above : ¬Received amount.toNat toAmount.toNat :=
      fun received => absurd received.most (Nat.not_le.mpr (BitVec.lt_def.mp more))
    rw [decide_eq_true above]
  · have within : toAmount.toNat≤amount.toNat :=
      Nat.le_of_not_lt fun less => more (BitVec.lt_def.mpr less)
    have fits : amount.toNat*(98 : U128).toNat<2^128 := h within
    have bound : toAmount<amount*98/100 ↔ ¬Received amount.toNat toAmount.toNat := by
      rw [BitVec.lt_def,toNat_scaled_div fits]
      constructor
      · intro less received
        exact absurd received.least (Nat.not_le.mpr less)
      · intro outside
        by_contra least
        exact outside ⟨within,Nat.le_of_not_lt least⟩
    have scaled : mul amount 98=.ok (amount*98) := guarded_eq_ok.mpr ⟨fits,rfl⟩
    rw [scaled]
    exact congrArg Except.ok (decide_eq_decide.mpr bound)

theorem lower_of_quiet_refuses (h : Quiet (refuses toAmount amount)) :
    toAmount.toNat≤amount.toNat → amount.toNat*98<2^128 := by
  intro within
  unfold refuses at h
  rw [if_neg fun less => absurd within (Nat.not_le.mpr (BitVec.lt_def.mp less))] at h
  exact (quiet_guarded_bind.mp h).1

theorem quiet_checkReceived : Quiet (checkReceived pair fromAmount toAmount amount) ↔
    Comparable amount.toNat toAmount.toNat := by
  have entered (h : toAmount.toNat≤amount.toNat → amount.toNat*98<2^128) :
      Quiet (checkReceived pair fromAmount toAmount amount) ↔
        (¬Received amount.toNat toAmount.toNat → amount.toNat*100<2^128) := by
    unfold checkReceived
    rw [refuses_eq h]
    show Quiet (if decide _=true then _ else _) ↔ _
    split_ifs with refused
    · have outside := of_decide_eq_true refused
      refine quiet_guarded_bind.trans ?_
      constructor
      · intro ⟨fits,_⟩ _
        exact fits
      · intro shown
        exact ⟨shown outside,Quiet.of_err⟩
    · have received := not_not.mp fun outside => refused (decide_eq_true outside)
      exact ⟨fun _ outside => absurd received outside,fun _ => Quiet.of_ok⟩
  constructor
  · intro quiet
    have tested : Quiet (refuses toAmount amount) := by
      intro m failed
      apply quiet m
      unfold checkReceived
      rw [failed]
      rfl
    have lower := lower_of_quiet_refuses tested
    exact ⟨lower,(entered lower).mp quiet⟩
  · intro comparable
    exact (entered comparable.lower).mpr comparable.shown

/-- An amount is accepted if it is received, and the lower bound fits. -/
theorem checkReceived_eq_ok : (∃ text,checkReceived pair fromAmount toAmount amount=.ok text) ↔
    amount.toNat*98<2^128 ∧ Received amount.toNat toAmount.toNat := by
  constructor
  · rintro ⟨text,accepted⟩
    have quiet : Quiet (checkReceived pair fromAmount toAmount amount) := by
      rw [accepted]
      exact Quiet.of_ok
    have lower := (quiet_checkReceived.mp quiet).lower
    unfold checkReceived at accepted
    rw [refuses_eq lower] at accepted
    by_cases received : Received amount.toNat toAmount.toNat
    · exact ⟨lower received.most,received⟩
    · rw [decide_eq_true received] at accepted
      simp [bind_eq_ok] at accepted
  · rintro ⟨fits,received⟩
    unfold checkReceived
    rw [refuses_eq fun _ => fits,decide_eq_false (not_not.mpr received)]
    exact ⟨_,rfl⟩

/-- A swap of a pair that exists, in the order of its tokens. -/
theorem verifySwapChecked_fst (hd : pair.1≠pair.2)
    (hs : self.pairs[UnorderedTokenPair.new pair.1 pair.2]?=some (oriented pair reserve paired)) :
    (self.verifySwapChecked quote pair fromAmount toAmount).1=
      (paidOutChecked reserve paired fromAmount >>=
        checkReceived pair fromAmount toAmount) := by
  unfold verifySwapChecked
  rw [if_neg hd]
  unfold oriented at hs
  split_ifs at hs with order
  all_goals
    simp only [hs,order,if_true,if_false]
    cases paidOutChecked reserve paired fromAmount <;> rfl

/-- A swap of one token, or of a pair that does not exist, is refused. -/
theorem verifySwapChecked_of_missing
    (h : ¬∃ reserve paired,pair.1≠pair.2 ∧
      self.pairs[UnorderedTokenPair.new pair.1 pair.2]?=some (oriented pair reserve paired)) :
    ∃ message,self.verifySwapChecked quote pair fromAmount toAmount=
      (.error (.err message),self) := by
  by_cases same : pair.1=pair.2
  · exact ⟨_,by rw [verifySwapChecked,if_pos same]⟩
  · cases stored : self.pairs[UnorderedTokenPair.new pair.1 pair.2]? with
    | none => exact ⟨_,by simp only [verifySwapChecked,same,if_false,stored]; rfl⟩
    | some amounts =>
      obtain ⟨x,y⟩ := amounts
      refine absurd ?_ h
      by_cases order : pair.1≤pair.2
      · exact ⟨x,y,same,by rw [stored,oriented,if_pos order]⟩
      · exact ⟨y,x,same,by rw [stored,oriented,if_neg order]⟩

/-- The arithmetic of a swap does not fail exactly if the numbers on its way fit. -/
theorem quiet_verifySwapChecked :
    Quiet (self.verifySwapChecked quote pair fromAmount toAmount).1 ↔
      ∀ reserve paired,pair.1≠pair.2 →
        self.pairs[UnorderedTokenPair.new pair.1 pair.2]?=some (oriented pair reserve paired) →
        Payable reserve paired fromAmount ∧
          Comparable (paid reserve.toNat paired.toNat fromAmount.toNat) toAmount.toNat := by
  have checked {reserve paired : U128} : Quiet (paidOutChecked reserve paired fromAmount >>=
      checkReceived pair fromAmount toAmount) ↔ Payable reserve paired fromAmount ∧
        Comparable (paid reserve.toNat paired.toNat fromAmount.toNat) toAmount.toNat := by
    by_cases payable : Payable reserve paired fromAmount
    · obtain ⟨amount,returned,value⟩ := exists_paidOutChecked payable
      rw [returned,← value,and_iff_right payable]
      exact quiet_checkReceived
    · constructor
      · intro quiet
        refine absurd (quiet_paidOutChecked.mp ?_) payable
        intro m failed
        apply quiet m
        rw [failed]
        rfl
      · intro h
        exact absurd h.1 payable
  constructor
  · intro quiet reserve paired distinct stored
    rw [verifySwapChecked_fst distinct stored] at quiet
    exact checked.mp quiet
  · intro fits
    by_cases h : ∃ reserve paired,pair.1≠pair.2 ∧
        self.pairs[UnorderedTokenPair.new pair.1 pair.2]?=some (oriented pair reserve paired)
    · obtain ⟨reserve,paired,distinct,stored⟩ := h
      rw [verifySwapChecked_fst distinct stored]
      exact checked.mpr (fits reserve paired distinct stored)
    · obtain ⟨message,refused⟩ := verifySwapChecked_of_missing h
      rw [refused]
      exact Quiet.of_err

/-- The quote always takes the token that it is asked for as the first one of the stored pair. -/
theorem quiet_getPairedAmountChecked {tokenA tokenB : String} :
    Quiet (self.getPairedAmountChecked tokenA tokenB amount) ↔
      ∀ x y,self.pairs[UnorderedTokenPair.new tokenA tokenB]?=some (x,y) → Payable x y amount := by
  unfold getPairedAmountChecked
  cases stored : self.pairs[UnorderedTokenPair.new tokenA tokenB]? with
  | none => simp [Quiet.of_ok]
  | some amounts =>
    obtain ⟨x,y⟩ := amounts
    have mapped : Quiet ((paidOutChecked x y amount).map some) ↔
        Quiet (paidOutChecked x y amount) := by
      rcases paidOutChecked x y amount with (m | m) | z <;> simp [Quiet,Except.map]
    rw [mapped,quiet_paidOutChecked]
    constructor
    · intro payable x' y' same
      obtain ⟨rfl,rfl⟩ := Prod.mk.inj (Option.some.inj same)
      exact payable
    · intro all
      exact all x y rfl

theorem getPairedAmountChecked_eq_some {tokenA tokenB : String} {quoted : U128} :
    self.getPairedAmountChecked tokenA tokenB amount=.ok (some quoted) ↔
      ∃ x y,self.pairs[UnorderedTokenPair.new tokenA tokenB]?=some (x,y) ∧ Payable x y amount ∧
        quoted.toNat=paid x.toNat y.toNat amount.toNat := by
  unfold getPairedAmountChecked
  cases stored : self.pairs[UnorderedTokenPair.new tokenA tokenB]? with
  | none => simp
  | some amounts =>
    obtain ⟨x,y⟩ := amounts
    have mapped : (paidOutChecked x y amount).map some=.ok (some quoted) ↔
        paidOutChecked x y amount=.ok quoted := by
      rcases paidOutChecked x y amount with fault | z <;> simp [Except.map]
    rw [mapped,paidOutChecked_eq_ok]
    constructor
    · intro ⟨payable,value⟩
      exact ⟨x,y,rfl,payable,value⟩
    · rintro ⟨x',y',same,payable,value⟩
      obtain ⟨rfl,rfl⟩ := Prod.mk.inj (Option.some.inj same)
      exact ⟨payable,value⟩

theorem verifySwapChecked_eq_ok (hd : pair.1≠pair.2)
    (hs : self.pairs[UnorderedTokenPair.new pair.1 pair.2]?=some (oriented pair reserve paired)) :
    (∃ text,(self.verifySwapChecked quote pair fromAmount toAmount).1=.ok text) ↔
      Payable reserve paired fromAmount ∧
        paid reserve.toNat paired.toNat fromAmount.toNat*98<2^128 ∧
        Received (paid reserve.toNat paired.toNat fromAmount.toNat) toAmount.toNat := by
  rw [verifySwapChecked_fst hd hs]
  constructor
  · rintro ⟨text,accepted⟩
    obtain ⟨amount,returned,checked⟩ := bind_eq_ok.mp accepted
    obtain ⟨payable,value⟩ := paidOutChecked_eq_ok.mp returned
    rw [← value]
    exact ⟨payable,checkReceived_eq_ok.mp ⟨text,checked⟩⟩
  · rintro ⟨payable,received⟩
    obtain ⟨amount,returned,value⟩ := exists_paidOutChecked payable
    rw [← value] at received
    rw [returned]
    exact checkReceived_eq_ok.mpr received

section Agreement

theorem paidOut_of_checked (h : paidOutChecked reserve paired fromAmount=.ok amount) :
    paidOut reserve paired fromAmount=.ok amount := by
  unfold paidOutChecked mul add div sub at h
  simp only [bind_eq_ok,guarded_eq_ok] at h
  obtain ⟨_,⟨_,rfl⟩,_,⟨_,rfl⟩,_,⟨divisor,rfl⟩,_,rfl⟩ := h
  have positive : reserve+fromAmount≠0 := by
    intro zero
    rw [zero] at divisor
    exact divisor rfl
  unfold paidOut
  rw [if_neg positive]

theorem checkReceived_eq (h : Comparable amount.toNat toAmount.toNat) :
    checkReceived pair fromAmount toAmount amount=
      if amount<toAmount ∨ toAmount<amount*98/100 then
        .error (.err s!"Invalid swap: expected to receive between {(amount*100/102).toNat} and {amount.toNat} {pair.2}")
      else
        .ok s!"Swap of {fromAmount.toNat} {pair.1} for {toAmount.toNat} {pair.2} is valid" := by
  have tested := refuses_eq h.lower
  have same : refuses toAmount amount=
      .ok (decide (amount<toAmount ∨ toAmount<amount*98/100)) := by
    unfold refuses at tested ⊢
    by_cases more : amount<toAmount
    · simp [more]
    · have fits : amount.toNat*(98 : U128).toNat<2^128 :=
        h.lower (Nat.le_of_not_lt fun less => more (BitVec.lt_def.mpr less))
      rw [if_neg more,mul,guarded,if_pos fits]
      simp only [more,false_or]
      rfl
  have refused : (amount<toAmount ∨ toAmount<amount*98/100) ↔
      ¬Received amount.toNat toAmount.toNat :=
    decide_eq_decide.mp (Except.ok.inj (same.symm.trans tested))
  unfold checkReceived
  rw [same]
  split_ifs with outside
  · have fits : amount.toNat*(100 : U128).toNat<2^128 := h.shown (refused.mp outside)
    rw [decide_eq_true outside,mul,guarded,if_pos fits]
    rfl
  · rw [decide_eq_false outside]
    rfl

/-- Unless the arithmetic fails, the checks of it change nothing. -/
theorem verifySwapChecked_eq
    (h : Quiet (self.verifySwapChecked quote pair fromAmount toAmount).1) :
    self.verifySwapChecked quote pair fromAmount toAmount=
      self.verifySwap quote pair fromAmount toAmount := by
  have fits := quiet_verifySwapChecked.mp h
  by_cases same : pair.1=pair.2
  · rw [verifySwapChecked,verifySwap,if_pos same,if_pos same]
  cases stored : self.pairs[UnorderedTokenPair.new pair.1 pair.2]? with
  | none => simp only [verifySwapChecked,verifySwap,same,if_false,stored]
  | some amounts =>
    obtain ⟨x,y⟩ := amounts
    by_cases order : pair.1≤pair.2
    · obtain ⟨payable,comparable⟩ := fits x y same (by rw [stored,oriented,if_pos order])
      obtain ⟨amount,returned,value⟩ := exists_paidOutChecked payable
      rw [← value] at comparable
      simp only [verifySwapChecked,verifySwap,same,if_false,stored,order,if_true,returned,
        paidOut_of_checked returned,checkReceived_eq comparable]
      split_ifs <;> rfl
    · obtain ⟨payable,comparable⟩ := fits y x same (by rw [stored,oriented,if_neg order])
      obtain ⟨amount,returned,value⟩ := exists_paidOutChecked payable
      rw [← value] at comparable
      simp only [verifySwapChecked,verifySwap,same,if_false,stored,order,returned,
        paidOut_of_checked returned,checkReceived_eq comparable]
      split_ifs <;> rfl

end Agreement

section Safety

/-- The arithmetic of a swap and of a quote does not fail exactly if what it computes fits: the
product of the reserves, the new reserve and the bounds of the amount to receive. -/
theorem arithmetic_safe_iff (quote : String → String) (self : Amm) (pair : TokenPair)
    (fromAmount toAmount : U128) :
    (Quiet (self.verifySwapChecked quote pair fromAmount toAmount).1 ↔
      ∀ reserve paired,pair.1≠pair.2 →
        self.pairs[UnorderedTokenPair.new pair.1 pair.2]?=some (oriented pair reserve paired) →
        Payable reserve paired fromAmount ∧
          Comparable (paid reserve.toNat paired.toNat fromAmount.toNat) toAmount.toNat) ∧
    (Quiet (self.getPairedAmountChecked pair.1 pair.2 fromAmount) ↔
      ∀ x y,self.pairs[UnorderedTokenPair.new pair.1 pair.2]?=some (x,y) →
        Payable x y fromAmount) :=
  ⟨quiet_verifySwapChecked,quiet_getPairedAmountChecked⟩

/-- The state after the actions, from the one without pairs. -/
def ran (quote : String → String) (actions : List AmmAction) : Amm :=
  actions.foldl (fun self action => (self.runAction quote action).2) ⟨∅⟩

/-- A new pair whose product of reserves is 2^128. -/
theorem not_arithmetic_safe : ¬∀ (actions : List AmmAction) (pair : TokenPair)
    (fromAmount toAmount : U128),
    Quiet ((ran id actions).verifySwapChecked id pair fromAmount toAmount).1 ∧
      Quiet ((ran id actions).getPairedAmountChecked pair.1 pair.2 fromAmount) := by
  intro safe
  have quiet := safe [.newPair ("token1","token2") (BitVec.ofNat 128 (2^127),2)]
    ("token1","token2") 1 1
  exact not_quiet_of_panics (by decide +kernel) quiet.1

/-- A quote that holds: in the stored order, if 98 times its amount fits. In the other order it
is the one for the other token, and has to be what is paid out for the one that is given. -/
def QuoteHolds (self : Amm) (tokenA tokenB : String) (amount : U128) : Prop :=
  ∀ x y,self.pairs[UnorderedTokenPair.new tokenA tokenB]?=some (x,y) →
    if tokenA≤tokenB then paid x.toNat y.toNat amount.toNat*98<2^128
    else Payable y x amount ∧ paid y.toNat x.toNat amount.toNat*98<2^128 ∧
      Received (paid y.toNat x.toNat amount.toNat) (paid x.toNat y.toNat amount.toNat)

/-- The amount that is quoted for a token is accepted by the swap. -/
theorem quoted_swap_accepted_iff {tokenA tokenB : String} {quoted : U128}
    (hd : tokenA≠tokenB)
    (hq : self.getPairedAmountChecked tokenA tokenB amount=.ok (some quoted)) :
    (∃ text,(self.verifySwapChecked quote (tokenA,tokenB) amount quoted).1=.ok text) ↔
      self.QuoteHolds tokenA tokenB amount := by
  obtain ⟨x,y,stored,payable,value⟩ := getPairedAmountChecked_eq_some.mp hq
  have only : self.QuoteHolds tokenA tokenB amount ↔
      if tokenA≤tokenB then paid x.toNat y.toNat amount.toNat*98<2^128
      else Payable y x amount ∧ paid y.toNat x.toNat amount.toNat*98<2^128 ∧
        Received (paid y.toNat x.toNat amount.toNat) (paid x.toNat y.toNat amount.toNat) := by
    constructor
    · intro holds
      exact holds x y stored
    · intro holds x' y' same
      obtain ⟨rfl,rfl⟩ := Prod.mk.inj (Option.some.inj (stored.symm.trans same))
      exact holds
  rw [only]
  split_ifs with order
  · have oriented : self.pairs[UnorderedTokenPair.new tokenA tokenB]?=
        some (oriented (tokenA,tokenB) x y) := by
      rw [stored,Amm.oriented,if_pos order]
    rw [@verifySwapChecked_eq_ok quote self (tokenA,tokenB) x y amount quoted hd oriented,value,
      and_iff_right payable]
    exact and_iff_left (received_self _)
  · have oriented : self.pairs[UnorderedTokenPair.new tokenA tokenB]?=
        some (oriented (tokenA,tokenB) y x) := by
      rw [stored,Amm.oriented,if_neg order]
    rw [@verifySwapChecked_eq_ok quote self (tokenA,tokenB) y x amount quoted hd oriented,value]

/-- Fifty units in the stored order of a pool of the tests. -/
theorem quoted_swap_accepted_in_order :
    ("token1"≠"token2" ∧
      (pool 20 50).getPairedAmountChecked "token1" "token2" 50=.ok (some 36)) ∧
    ((∃ text,((pool 20 50).verifySwapChecked id ("token1","token2") 50 36).1=.ok text) ↔
      (pool 20 50).QuoteHolds "token1" "token2" 50) := by
  have quoted : (pool 20 50).getPairedAmountChecked "token1" "token2" 50=.ok (some 36) := by rfl
  exact ⟨⟨by decide,quoted⟩,quoted_swap_accepted_iff (by decide) quoted⟩

/-- In the other order 36 are quoted and ten are paid out. -/
theorem not_quoted_swap_accepted : ¬∀ (self : Amm) (tokenA tokenB : String) (amount quoted : U128),
    tokenA≠tokenB → self.getPairedAmountChecked tokenA tokenB amount=.ok (some quoted) →
    ∃ text,(self.verifySwapChecked id (tokenA,tokenB) amount quoted).1=.ok text := by
  intro accepts
  obtain ⟨text,accepted⟩ := accepts (pool 20 50) "token2" "token1" 50 36 (by decide) (by rfl)
  have refused : ((pool 20 50).verifySwapChecked id ("token2","token1") 50 36).1.toOption=none := by
    decide +kernel
  rw [accepted] at refused
  cases refused

end Safety

end TruthSeeker.Amm
