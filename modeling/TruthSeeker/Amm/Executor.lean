import TruthSeeker.Amm.ConstantProduct

namespace TruthSeeker.Amm

open Sdk

variable {quote : String → String} {self : Amm} {calldata : Calldata} {pair : TokenPair}
  {fromAmount reserve paired : U128}

/-- A swap whose reserves are updated and whose amount to receive is then refused. An empty
swap of reserves whose product fits is refused without a trace. -/
def Spoils (self : Amm) (calldata : Calldata) : Prop :=
  (∃ commitment,self.commit=.ok commitment) ∧
  ∃ pair amounts ctx rest reserve paired,
    parseCalldata AmmAction calldata=.ok (.swap pair amounts,ctx) ∧
    consumeCallees ctx (.swap pair amounts)=.ok rest ∧
    self.Exchanges pair amounts.1 reserve paired ∧
    OutOfRange (paired-leftOver reserve paired amounts.1) amounts.2 ∧
    ¬(amounts.1=0 ∧ reserve.toNat*paired.toNat<2^128)

theorem exchange_eq_self (h : self.Exchanges pair fromAmount reserve paired) :
    self.exchange pair fromAmount reserve paired=self ↔
      fromAmount=0 ∧ reserve.toNat*paired.toNat<2^128 := by
  have stored := h.stored
  have divisor := h.divisor
  have unchanged : self.exchange pair fromAmount reserve paired=self ↔
      reserve+fromAmount=reserve ∧ leftOver reserve paired fromAmount=paired := by
    constructor
    · intro same
      have found := stored
      rw [← same,exchange,Std.ExtTreeMap.getElem?_insert_self] at found
      exact oriented_injective (Option.some.inj found)
    · rintro ⟨first,second⟩
      rw [exchange,first,second]
      obtain ⟨pairs⟩ := self
      congr 1
      ext1 key
      rw [Std.ExtTreeMap.getElem?_insert]
      split_ifs with here
      · rw [← Std.LawfulEqOrd.compare_eq_iff_eq.mp here,stored]
      · rfl
  rw [unchanged,add_eq_left]
  refine and_congr_right fun empty => ?_
  subst empty
  rw [add_zero] at divisor
  have positive : 0< reserve.toNat := by
    rw [Nat.pos_iff_ne_zero]
    exact fun zero => divisor (BitVec.eq_of_toNat_eq zero)
  rw [← BitVec.toNat_inj,leftOver,BitVec.toNat_udiv,BitVec.toNat_mul,add_zero]
  constructor
  · intro whole
    by_contra wraps
    have low := Nat.mod_lt (reserve.toNat*paired.toNat) (show 0<2^128 by norm_num)
    have product := Nat.div_mul_le_self (reserve.toNat*paired.toNat%2^128) reserve.toNat
    rw [whole,Nat.mul_comm] at product
    omega
  · intro fits
    rw [Nat.mod_eq_of_lt fits,Nat.mul_div_cancel_left _ positive]

/-- A failed execution that changes the state is a swap refused after its update. -/
theorem execute_changed {m : String} (failed : (self.execute quote calldata).1=.error (.err m))
    (changed : (self.execute quote calldata).2≠self) :
    ∃ pair amounts ctx rest reserve paired,
      parseCalldata AmmAction calldata=.ok (.swap pair amounts,ctx) ∧
      consumeCallees ctx (.swap pair amounts)=.ok rest ∧
      self.Exchanges pair amounts.1 reserve paired ∧
      OutOfRange (paired-leftOver reserve paired amounts.1) amounts.2 ∧
      ¬(amounts.1=0 ∧ reserve.toNat*paired.toNat<2^128) := by
  cases parsed : parseCalldata AmmAction calldata with
  | error fault => simp [execute,parsed] at changed
  | ok parsed_action =>
    obtain ⟨action,ctx⟩ := parsed_action
    cases consumed : consumeCallees ctx action with
    | error fault => simp [execute,parsed,consumed] at changed
    | ok rest =>
      simp only [execute,parsed,consumed] at failed changed
      cases action with
      | newPair pair amounts =>
        simp only [runAction,createNewPair] at failed changed
        split_ifs at failed changed
        · exact absurd rfl changed
        · exact absurd rfl changed
        · cases failed
      | swap pair amounts =>
        simp only [runAction] at failed changed
        by_cases some_exchange : ∃ reserve paired,self.Exchanges pair amounts.1 reserve paired
        · obtain ⟨reserve,paired,exchanges⟩ := some_exchange
          obtain ⟨state,result⟩ := verifySwap_of_exchanges quote amounts.2 exchanges
          rw [state] at changed
          refine ⟨pair,amounts,ctx,rest,reserve,paired,rfl,consumed,exchanges,?_,?_⟩
          · by_contra inRange
            rw [if_neg inRange] at result
            obtain ⟨text,accepted⟩ := result
            rw [accepted] at failed
            cases failed
          · exact fun idle => changed ((exchange_eq_self exchanges).mpr idle)
        · push Not at some_exchange
          obtain ⟨fault,refused⟩ := verifySwap_of_not_exchanges quote amounts.2 some_exchange
          rw [refused] at changed
          exact absurd rfl changed

theorem atomic_iff : Atomic (execute quote) commit quote self calldata ↔ ¬self.Spoils calldata := by
  rw [Sdk.atomic_iff]
  constructor
  · rintro atomic ⟨⟨commitment,written⟩,pair,amounts,ctx,rest,reserve,paired,parsed,consumed,
      exchanges,refused,trace⟩
    obtain ⟨state,result⟩ := verifySwap_of_exchanges quote amounts.2 exchanges
    rw [if_pos refused] at result
    obtain ⟨m,failed⟩ := result
    have run : self.execute quote calldata=(.error (.err m),
        self.exchange pair amounts.1 reserve paired) := by
      simp only [execute,parsed,consumed,runAction,state,failed,Except.map]
    have kept := atomic m (by rw [run]) commitment written
    rw [run] at kept
    exact trace ((exchange_eq_self exchanges).mp kept)
  · intro clean m failed commitment written
    by_contra changed
    exact clean ⟨⟨commitment,written⟩,execute_changed failed changed⟩

end TruthSeeker.Amm
