import TruthSeeker.Framework.Ledger
import TruthSeeker.Framework.Maps
import TruthSeeker.Staking.Charging

namespace TruthSeeker

open Outcome

namespace Fees

section Ledgers
variable {balances : Balances} {exact : ValidatorPublicKey → Int} {v : ValidatorPublicKey}
  {bonded : List ValidatorPublicKey} {pending : List (ValidatorPublicKey × LaneBytesSize)}

def balanceOf (balances : Balances) (v : ValidatorPublicKey) : I128 :=
  (balances.getD v ⟨0,0⟩).balance

/-- The sum of all balances. -/
def total (balances : Balances) : Int := Maps.total (fun state => state.balance.toInt) balances

/-- The balances are the exact ones, up to what does not fit in 128 bits. -/
def Follows (balances : Balances) (exact : ValidatorPublicKey → Int) : Prop :=
  ∀ v,balanceOf balances v=BitVec.ofInt 128 (exact v)

def InRange (n : Int) : Prop := -2^127≤n ∧ n<2^127

theorem balanceOf_eq : balanceOf balances v=(balances[v]?.getD ⟨0,0⟩).balance := by
  rw [balanceOf,Std.ExtTreeMap.getD_eq_getD_getElem?]

theorem balanceOf_insert {holder : ValidatorPublicKey} {state : ValidatorFeeState} :
    balanceOf (balances.insert holder state) v=
      if v=holder then state.balance else balanceOf balances v := by
  rw [balanceOf_eq,balanceOf_eq,getElem?_insert_key]
  split
  · rfl
  · rfl

theorem follows_self : Follows balances fun v => (balanceOf balances v).toInt :=
  fun _ => BitVec.ofInt_toInt.symm

theorem Follows.credit (h : Follows balances exact) (holder : ValidatorPublicKey) (amount : Int) :
    Follows (credit balances holder (BitVec.ofInt 128 amount))
      fun v => exact v+if v=holder then amount else 0 := by
  intro v
  rw [Fees.credit,balanceOf_insert]
  dsimp only
  by_cases same : v=holder
  · have before := h holder
    rw [if_pos same,if_pos same,same,BitVec.ofInt_add,← before]
    rfl
  · rw [if_neg same,if_neg same,add_zero]
    exact h v

theorem Follows.share (h : Follows balances exact) (amount : Int) :
    Follows (bonded.foldl (fun m v => Fees.credit m v (BitVec.ofInt 128 amount)) balances)
      fun v => exact v+Ledger.shares bonded v*amount := by
  induction bonded generalizing balances exact with
  | nil =>
    intro v
    simpa using h v
  | cons holder bonded ih =>
    intro v
    rw [List.foldl_cons,ih (h.credit holder amount) v]
    congr 1
    by_cases same : v=holder
    · simp [same]
      ring
    · simp [same]

/-- The share of a fee is the quotient, rounded down. -/
theorem sdiv_fee {fee n : Nat} (hf : fee<2^127) (hn : n<2^127) :
    (BitVec.ofNat 128 fee).sdiv (BitVec.ofNat 128 n)=BitVec.ofInt 128 ((fee : Int)/n) := by
  have first : (BitVec.ofNat 128 fee).toNat=fee := by
    rw [BitVec.toNat_ofNat]
    omega
  have second : (BitVec.ofNat 128 n).toNat=n := by
    rw [BitVec.toNat_ofNat]
    omega
  have positive : (BitVec.ofNat 128 fee).msb=false := by
    rw [BitVec.msb_eq_false_iff_two_mul_lt,first]
    omega
  have positive' : (BitVec.ofNat 128 n).msb=false := by
    rw [BitVec.msb_eq_false_iff_two_mul_lt,second]
    omega
  have quotient : (fee : Int)/n=((fee/n : Nat) : Int) := by simp
  have small : fee/n<2^127 := lt_of_le_of_lt (Nat.div_le_self _ _) hf
  rw [BitVec.sdiv_eq,positive,positive',quotient,BitVec.ofInt_natCast]
  apply BitVec.eq_of_toNat_eq
  show (BitVec.ofNat 128 fee/BitVec.ofNat 128 n).toNat=_
  rw [BitVec.toNat_udiv,first,second,BitVec.toNat_ofNat]
  exact (Nat.mod_eq_of_lt (small.trans (by norm_num))).symm

/-- What the pending fees are for, and what has been paid of it, in bytes. -/
def used (pending : List (ValidatorPublicKey × LaneBytesSize)) : List (ValidatorPublicKey × Nat) :=
  pending.map fun entry => (entry.1,entry.2.toNat)

def paid (balances : Balances) (v : ValidatorPublicKey) : Nat := (paidSize balances v).toNat

theorem Follows.shareOut (h : Follows balances exact) (hl : bonded.length<2^64)
    {state : ValidatorFeeState} (hs : balances[v]?=some state) {cumulSize : LaneBytesSize}
    (hp : state.paidCumulSize≤ cumulSize) :
    Follows (shareOut bonded balances v state cumulSize)
      (Ledger.share bonded v (cumulSize.toNat-paid balances v) exact) := by
  have size : paid balances v=state.paidCumulSize.toNat := by rw [paid,paidSize_of_getElem? hs]
  have enough : state.paidCumulSize.toNat≤ cumulSize.toNat := UInt64.le_iff_toNat_le.mp hp
  have fee : (cumulSize-state.paidCumulSize).toNat=cumulSize.toNat-state.paidCumulSize.toNat :=
    UInt64.toNat_sub_of_le _ _ hp
  have bound := cumulSize.toNat_lt
  have difference : ((cumulSize.toNat-state.paidCumulSize.toNat : Nat) : Int)=
      cumulSize.toNat-paid balances v := by omega
  have charged : Follows (balances.insert v ⟨state.balance-BitVec.ofNat 128
      (cumulSize.toNat-state.paidCumulSize.toNat),cumulSize⟩)
      fun w => exact w-if w=v then (cumulSize.toNat-paid balances v : Int) else 0 := by
    intro w
    rw [balanceOf_insert]
    dsimp only
    by_cases same : w=v
    · have before := h v
      rw [balanceOf_eq,hs] at before
      subst same
      rw [if_pos rfl,if_pos rfl,← difference,Int.sub_eq_add_neg,BitVec.ofInt_add,
        BitVec.ofInt_neg,BitVec.ofInt_natCast,← before,BitVec.sub_eq_add_neg]
      rfl
    · rw [if_neg same,if_neg same,sub_zero]
      exact h w
  have share := @sdiv_fee (cumulSize.toNat-state.paidCumulSize.toNat) bonded.length (by omega)
    (by omega)
  rw [difference] at share
  unfold Fees.shareOut
  rw [fee]
  dsimp only
  rw [share]
  exact charged.share _

/-- The distribution settles the pending fees, up to what does not fit in 128 bits. -/
theorem Follows.distributeAll (h : Follows balances exact) (hb : bonded≠[])
    (hl : bonded.length<2^64) (hd : Distributable bonded balances pending) :
    Follows (distributeAll bonded pending balances).2
      (Ledger.settle bonded (used pending) (paid balances) exact) := by
  induction pending generalizing balances exact with
  | nil => exact h
  | cons entry pending ih =>
    obtain ⟨disseminator,cumulSize⟩ := entry
    obtain ⟨state,hs,enough,rest⟩ := hd.head
    have sizes : paid (Fees.shareOut bonded balances disseminator state cumulSize)=
        Function.update (paid balances) disseminator cumulSize.toNat := by
      funext v
      rw [paid,paidSize_shareOut,Function.update_apply]
      split
      · rfl
      · rfl
    have settled := ih (h.shareOut hl hs enough) rest
    rw [sizes] at settled
    rw [distributeAll_cons hb hs enough]
    exact settled

/-- The first fee gives an account to everyone who is bonded. -/
theorem contains_distributeAll (hb : bonded≠[]) (hn : pending≠[])
    (hd : Distributable bonded balances pending) (hv : v ∈ bonded) :
    (distributeAll bonded pending balances).2.contains v=true := by
  cases pending with
  | nil => exact absurd rfl hn
  | cons entry pending =>
    obtain ⟨disseminator,cumulSize⟩ := entry
    obtain ⟨state,hs,enough,_⟩ := hd.head
    rw [distributeAll_cons hb hs enough]
    exact (paidSize_distributeAll v).2 (contains_shareOut.mpr (Or.inr hv))

theorem total_eq {accounts : Finset ValidatorPublicKey} (h : Maps.keys balances⊆accounts) :
    total balances=∑ v ∈ accounts,(balanceOf balances v).toInt := by
  rw [total,Maps.total_eq_sum _ h]
  apply Finset.sum_congr rfl
  intro v _
  rw [balanceOf_eq]
  cases balances[v]? with
  | none => rfl
  | some state => rfl

/-- Exact balances that fit are the balances. -/
theorem Follows.total (h : Follows balances exact) (hr : ∀ v,InRange (exact v))
    {accounts : Finset ValidatorPublicKey} (hk : Maps.keys balances⊆accounts) :
    Fees.total balances=∑ v ∈ accounts,exact v := by
  rw [total_eq hk]
  apply Finset.sum_congr rfl
  intro v _
  rw [h v]
  exact BitVec.toInt_ofInt_eq_self (by decide) (hr v).1 (hr v).2

end Ledgers

end Fees

end TruthSeeker

namespace TruthSeeker

open Outcome

namespace Fees

variable {fees : Fees} {bonded : List ValidatorPublicKey}

section Steps

/-- What the pending fees leave of the balances, in exact numbers. -/
def due (fees : Fees) (bonded : List ValidatorPublicKey) : ValidatorPublicKey → Int :=
  Ledger.settle bonded (used fees.pendingFees) (paid fees.balances)
    fun v => (balanceOf fees.balances v).toInt

/-- The pending fees can be distributed without a rest, and no balance gets out of range. The
number of bonded validators is one that a vector can have. -/
structure Settles (fees : Fees) (bonded : List ValidatorPublicKey) : Prop where
  payees : bonded≠[]
  size : bonded.length<2^64
  distributable : Distributable bonded fees.balances fees.pendingFees
  even : ∀ entry ∈ fees.pendingFees,
    (bonded.length : Int)∣entry.2.toNat-paid fees.balances entry.1
  fits : ∀ v,InRange (fees.due bonded v)

/-- What the disseminators pay is what the bonded validators receive. -/
theorem Settles.total_distribute (h : fees.Settles bonded) :
    total (fees.distribute bonded).2.balances=total fees.balances := by
  by_cases some : fees.pendingFees=[]
  · unfold distribute
    rw [some]
    rfl
  · let next := (distributeAll bonded fees.pendingFees fees.balances).2
    have kept : Maps.keys fees.balances⊆Maps.keys next := by
      intro v hv
      rw [Maps.mem_keys] at hv ⊢
      exact (paidSize_distributeAll v).2 hv
    have payees : ∀ v ∈ bonded,v ∈ Maps.keys next := by
      intro v hv
      rw [Maps.mem_keys]
      exact contains_distributeAll h.payees some h.distributable hv
    have payers : ∀ entry ∈ used fees.pendingFees,entry.1 ∈ Maps.keys next := by
      intro entry he
      obtain ⟨pending,hp,rfl⟩ := List.mem_map.mp he
      obtain ⟨before,after,split⟩ := List.append_of_mem hp
      obtain account|⟨_,listed⟩ := h.distributable.accounts before pending after split
      · exact kept (Maps.mem_keys.mpr account)
      · exact payees _ listed
    have even : ∀ entry ∈ used fees.pendingFees,
        (bonded.length : Int)∣entry.2-paid fees.balances entry.1 := by
      intro entry he
      obtain ⟨pending,hp,rfl⟩ := List.mem_map.mp he
      exact h.even pending hp
    have settled : Follows next (fees.due bonded) :=
      follows_self.distributeAll h.payees h.size h.distributable
    calc
      total next=∑ v ∈ Maps.keys next,fees.due bonded v :=
        settled.total h.fits (Finset.Subset.refl _)
      _=∑ v ∈ Maps.keys next,(balanceOf fees.balances v).toInt :=
        Ledger.sum_settle payers payees even
      _=total fees.balances := (total_eq kept).symm

/-- A deposit that fits adds its amount. -/
theorem total_depositForFees {holder : ValidatorPublicKey} {amount : U128}
    (h : (balanceOf fees.balances holder).toInt+amount.toNat<2^127) :
    total (fees.depositForFees holder amount).balances=total fees.balances+amount.toNat := by
  let next := (fees.depositForFees holder amount).balances
  have kept : Maps.keys fees.balances⊆Maps.keys next := by
    intro v hv
    rw [Maps.mem_keys] at hv ⊢
    exact contains_credit.mpr (Or.inl hv)
  have own : holder ∈ Maps.keys next := by
    rw [Maps.mem_keys]
    exact contains_credit.mpr (Or.inr rfl)
  have credited : Follows next fun v =>
      (balanceOf fees.balances v).toInt+if v=holder then (amount.toNat : Int) else 0 := by
    have same : BitVec.ofInt 128 amount.toNat=amount := by
      rw [BitVec.ofInt_natCast,BitVec.ofNat_toNat,BitVec.setWidth_eq]
    have added : Follows (credit fees.balances holder (BitVec.ofInt 128 amount.toNat)) _ :=
      follows_self.credit holder amount.toNat
    rwa [same] at added
  have fits : ∀ v,InRange ((balanceOf fees.balances v).toInt+
      if v=holder then (amount.toNat : Int) else 0) := by
    intro v
    have low := BitVec.le_toInt (balanceOf fees.balances v)
    have high := BitVec.toInt_lt (x := balanceOf fees.balances v)
    unfold InRange
    split
    · next same =>
      subst same
      omega
    · omega
  calc
    total next=∑ v ∈ Maps.keys next,((balanceOf fees.balances v).toInt+
        if v=holder then (amount.toNat : Int) else 0) :=
      credited.total fits (Finset.Subset.refl _)
    _=∑ v ∈ Maps.keys next,(balanceOf fees.balances v).toInt+amount.toNat := by
      rw [Finset.sum_add_distrib,Finset.sum_ite_eq',if_pos own]
    _=total fees.balances+amount.toNat := by rw [total_eq kept]

/-- The pending fees of a list that a distribution charges and shares out. -/
def chargedOf (bonded : List ValidatorPublicKey) :
    List (ValidatorPublicKey × LaneBytesSize) → Balances →
      List (ValidatorPublicKey × LaneBytesSize)
  | [],_ => []
  | (disseminator,cumulSize)::pending,balances =>
      match distributeOne bonded balances disseminator cumulSize with
      | (.ok (),balances) => (disseminator,cumulSize)::chargedOf bonded pending balances
      | _ => []

/-- A distribution that does not fail charges every pending fee. -/
theorem chargedOf_eq {pending : List (ValidatorPublicKey × LaneBytesSize)} {balances : Balances}
    (h : (distributeAll bonded pending balances).1=.ok ()) :
    chargedOf bonded pending balances=pending := by
  induction pending generalizing balances with
  | nil => rfl
  | cons entry pending ih =>
    obtain ⟨disseminator,cumulSize⟩ := entry
    unfold distributeAll at h
    unfold chargedOf
    generalize distributeOne bonded balances disseminator cumulSize=outcome at h ⊢
    obtain ⟨result,next⟩ := outcome
    cases result with
    | error fault => cases h
    | ok done =>
      have rest := ih h
      dsimp only
      rw [rest]

end Steps

/-- A call of the fees. -/
inductive Call where
  | depositForFees (holder : ValidatorPublicKey) (amount : U128)
  | payForDadi (disseminator : ValidatorPublicKey) (cumulSize : LaneBytesSize)
  | distribute (bonded : List ValidatorPublicKey)

/-- The fees after the call, whether it has failed or not. -/
def call (fees : Fees) : Call → Fees
  | .depositForFees holder amount => fees.depositForFees holder amount
  | .payForDadi disseminator cumulSize => fees.payForDadi disseminator cumulSize
  | .distribute bonded => (fees.distribute bonded).2

def run (fees : Fees) (calls : List Call) : Fees := calls.foldl call fees

/-- The sum of the deposits. -/
def deposits (calls : List Call) : Nat :=
  (calls.map fun
    | .depositForFees _ amount => amount.toNat
    | _ => 0).sum

/-- The fees that became pending, in order. -/
def payments (calls : List Call) : List (ValidatorPublicKey × LaneBytesSize) :=
  calls.filterMap fun
    | .payForDadi disseminator cumulSize => some (disseminator,cumulSize)
    | _ => none

/-- The fees that were charged, in order. -/
def charged : List Call → Fees → List (ValidatorPublicKey × LaneBytesSize)
  | [],_ => []
  | .distribute bonded::calls,fees =>
      chargedOf bonded fees.pendingFees fees.balances++charged calls (fees.call (.distribute bonded))
  | other::calls,fees => charged calls (fees.call other)

/-- A deposit that the balance has room for, or a distribution of fees that settles them. -/
def Covered (fees : Fees) : Call → Prop
  | .depositForFees holder amount => (balanceOf fees.balances holder).toInt+amount.toNat<2^127
  | .payForDadi _ _ => True
  | .distribute bonded => fees.pendingFees=[] ∨ fees.Settles bonded

/-- Each call is covered when its turn comes. -/
def CoveredRun : List Call → Fees → Prop
  | [],_ => True
  | call::calls,fees => fees.Covered call ∧ CoveredRun calls (fees.call call)

section Runs
variable {calls : List Call}

theorem distribute_ok (h : fees.Covered (.distribute bonded)) :
    (fees.distribute bonded).1=.ok () := by
  obtain none|settles := h
  · unfold distribute
    rw [none]
    rfl
  · exact (distributeAll_eq_ok settles.payees).mpr settles.distributable

/-- One call adds what it deposits. -/
theorem total_call {call : Call} (h : fees.Covered call) :
    total (fees.call call).balances=total fees.balances+deposits [call] := by
  cases call with
  | depositForFees holder amount => exact total_depositForFees h
  | payForDadi disseminator cumulSize => exact (add_zero _).symm
  | distribute bonded =>
    obtain none|settles := h
    · unfold Fees.call distribute
      rw [none]
      exact (add_zero _).symm
    · exact settles.total_distribute.trans (add_zero _).symm

theorem deposits_cons (call : Call) : deposits (call::calls)=deposits [call]+deposits calls := by
  simp [deposits]

/-- The sum of the balances is what it was and what has been deposited. -/
theorem total_run (h : CoveredRun calls fees) :
    total (fees.run calls).balances=total fees.balances+deposits calls := by
  induction calls generalizing fees with
  | nil => exact (add_zero _).symm
  | cons call calls ih =>
    rw [run,List.foldl_cons,deposits_cons]
    have rest := ih h.2
    rw [run] at rest
    rw [rest,total_call h.1]
    push_cast
    ring

/-- Each pending fee has been charged or is still pending, in the order of the payments. -/
theorem charged_run (h : CoveredRun calls fees) :
    fees.pendingFees++payments calls=charged calls fees++(fees.run calls).pendingFees := by
  induction calls generalizing fees with
  | nil => simp [payments,charged,run]
  | cons call calls ih =>
    have rest := ih h.2
    cases call with
    | depositForFees holder amount => exact rest
    | payForDadi disseminator cumulSize =>
      refine Eq.trans ?_ rest
      simp [payments,Fees.call,payForDadi]
    | distribute bonded =>
      have all := chargedOf_eq (distribute_ok h.1)
      rw [charged,all,List.append_assoc]
      congr 1

/-- The fees are accounted for in every run whose calls are covered: the balances sum up to what
was there and what has been deposited, each fee is charged exactly once or is pending, and no
distribution fails. -/
theorem run_accounts (fees : Fees) (calls : List Call) (h : CoveredRun calls fees) :
    total (fees.run calls).balances=total fees.balances+deposits calls ∧
      fees.pendingFees++payments calls=charged calls fees++(fees.run calls).pendingFees ∧
      ∀ before bonded after,calls=before++.distribute bonded::after →
        ((fees.run before).distribute bonded).1=.ok () := by
  refine ⟨total_run h,charged_run h,?_⟩
  intro before bonded after split
  induction before generalizing fees calls with
  | nil =>
    subst split
    exact distribute_ok h.1
  | cons call before ih =>
    subst split
    exact ih (fees.call call) _ h.2 rfl

/-- A deposit, data to pay for and its distribution among two validators. -/
def sharedRun (cumulSize : LaneBytesSize) : List Call :=
  [.depositForFees [1] 200,.payForDadi [1] cumulSize,.distribute [[1],[2]]]

theorem coveredRun_shared : CoveredRun (sharedRun 100) empty := by
  let paying := (empty.depositForFees [1] 200).payForDadi [1] 100
  have ok : (distributeAll [[1],[2]] paying.pendingFees paying.balances).1=.ok () := by
    decide +kernel
  have own : (balanceOf paying.balances [1]).toInt=200 := by decide +kernel
  have other {v : ValidatorPublicKey} (h : v≠[1]) : balanceOf paying.balances v=0 := by
    show balanceOf (empty.depositForFees [1] 200).balances v=0
    rw [depositForFees,credit,balanceOf_insert,if_neg h]
    rfl
  have fee : ((100 : LaneBytesSize).toNat : Int)-paid paying.balances [1]=100 := by
    decide +kernel
  have due : paying.due [[1],[2]]=Ledger.share [[1],[2]] [1] 100
      fun v => (balanceOf paying.balances v).toInt := by
    rw [← fee]
    rfl
  have room : (balanceOf empty.balances [1]).toInt+((200 : U128).toNat : Int)<2^127 := by
    decide +kernel
  refine ⟨room,trivial,Or.inr ⟨by simp,by decide,?_,?_,?_⟩,trivial⟩
  · exact (distributeAll_eq_ok (by simp)).mp ok
  · intro entry he
    obtain rfl : entry=([1],100) := List.mem_singleton.mp he
    exact ⟨50,fee⟩
  · intro v
    show InRange (paying.due [[1],[2]] v)
    rw [due]
    unfold Ledger.share InRange
    dsimp only
    by_cases same : v=[1]
    · subst same
      rw [own]
      decide
    · rw [other same]
      simp [same]
      split <;> omega

theorem run_accounts_shared : total (empty.run (sharedRun 100)).balances=200 := by
  have accounts := (run_accounts empty (sharedRun 100) coveredRun_shared).1
  have deposited : deposits (sharedRun 100)=200 := by decide +kernel
  have none : total empty.balances=0 := by decide +kernel
  rw [none,deposited] at accounts
  exact accounts

/-- A fee of one byte is charged to the disseminator and not shared among two. A fee of a
disseminator without an account is refused and forgotten. -/
theorem not_run_accounts :
    ¬(∀ calls,total (empty.run calls).balances=deposits calls) ∧
      ¬(∀ (fees : Fees) (bonded : List ValidatorPublicKey) (e : String),
        (fees.distribute bonded).1=err e → (fees.distribute bonded).2=fees) := by
  constructor
  · intro h
    have balanced := h (sharedRun 1)
    have lost : total (empty.run (sharedRun 1)).balances=199 := by decide +kernel
    have deposited : deposits (sharedRun 1)=200 := by decide +kernel
    rw [lost,deposited] at balanced
    exact absurd balanced (by decide)
  · intro h
    have same := h (empty.payForDadi [1] 1) [[1]] _ rfl
    have pending := congrArg Fees.pendingFees same
    cases pending

end Runs

end Fees

end TruthSeeker
