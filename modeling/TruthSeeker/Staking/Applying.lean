import TruthSeeker.Staking.State

namespace TruthSeeker

open Outcome

abbrev Balances := Std.ExtTreeMap ValidatorPublicKey ValidatorFeeState

namespace Fees

/-- What has been charged for the lane of a validator. -/
def paidSize (balances : Balances) (v : ValidatorPublicKey) : LaneBytesSize :=
  (balances.getD v ⟨0,0⟩).paidCumulSize

theorem contains_insert_iff {balances : Balances} {holder v : ValidatorPublicKey}
    {state : ValidatorFeeState} :
    (balances.insert holder state).contains v=true ↔ balances.contains v=true ∨ v=holder := by
  rw [Std.ExtTreeMap.contains_insert,Bool.or_eq_true,beq_iff_eq,Std.LawfulEqCmp.compare_eq_iff_eq,
    or_comm,@eq_comm _ holder]

theorem paidSize_insert {balances : Balances} {holder v : ValidatorPublicKey}
    {state : ValidatorFeeState} : paidSize (balances.insert holder state) v=
      if v=holder then state.paidCumulSize else paidSize balances v := by
  unfold paidSize
  rw [Std.ExtTreeMap.getD_insert]
  by_cases same : v=holder
  · subst same
    simp
  · have apart : compare holder v≠.eq := fun eq => same (Std.LawfulEqCmp.eq_of_compare eq).symm
    rw [if_neg apart,if_neg same]

theorem contains_credit {balances : Balances} {holder v : ValidatorPublicKey} {amount : I128} :
    (credit balances holder amount).contains v=true ↔ balances.contains v=true ∨ v=holder :=
  contains_insert_iff

theorem paidSize_credit {balances : Balances} {holder v : ValidatorPublicKey} {amount : I128} :
    paidSize (credit balances holder amount) v=paidSize balances v := by
  unfold credit
  rw [paidSize_insert]
  split
  · next same =>
    rw [same]
    rfl
  · rfl

theorem contains_share {bonded : List ValidatorPublicKey} {balances : Balances}
    {v : ValidatorPublicKey} {fee : I128} :
    (bonded.foldl (fun m validator => credit m validator fee) balances).contains v=true ↔
      balances.contains v=true ∨ v ∈ bonded := by
  induction bonded generalizing balances with
  | nil => simp
  | cons holder bonded ih =>
    rw [List.foldl_cons,ih,contains_credit,List.mem_cons,or_assoc]

theorem paidSize_share {bonded : List ValidatorPublicKey} {balances : Balances}
    {v : ValidatorPublicKey} {fee : I128} :
    paidSize (bonded.foldl (fun m validator => credit m validator fee) balances) v=
      paidSize balances v := by
  induction bonded generalizing balances with
  | nil => rfl
  | cons holder bonded ih => rw [List.foldl_cons,ih,paidSize_credit]

/-- Each disseminator has an account when it is charged, and its size does not fall. The first
fee gives an account to every bonded validator. -/
structure Distributable (bonded : List ValidatorPublicKey) (balances : Balances)
    (pending : List (ValidatorPublicKey × LaneBytesSize)) : Prop where
  accounts : ∀ before entry after,pending=before++entry::after →
    balances.contains entry.1=true ∨ before≠[] ∧ entry.1 ∈ bonded
  paid : ∀ entry ∈ pending,paidSize balances entry.1 ≤ entry.2
  growing : pending.Pairwise fun entry later => entry.1=later.1 → entry.2 ≤ later.2

/-- The account of the first disseminator, and those that the first fee leaves. -/
theorem distributable_cons {bonded : List ValidatorPublicKey} {balances next : Balances}
    {disseminator : ValidatorPublicKey} {cumulSize : LaneBytesSize}
    {pending : List (ValidatorPublicKey × LaneBytesSize)}
    (hc : ∀ v,next.contains v=true ↔ (balances.contains v=true ∨ v=disseminator) ∨ v ∈ bonded)
    (hp : ∀ v,paidSize next v=if v=disseminator then cumulSize else paidSize balances v) :
    Distributable bonded balances ((disseminator,cumulSize)::pending) ↔
      balances.contains disseminator=true ∧ paidSize balances disseminator ≤ cumulSize ∧
        Distributable bonded next pending := by
  constructor
  · intro h
    have known : balances.contains disseminator=true :=
      (h.accounts [] _ pending rfl).resolve_right fun other => other.1 rfl
    refine ⟨known,h.paid _ List.mem_cons_self,?_,?_,(List.pairwise_cons.mp h.growing).2⟩
    · intro before entry after split
      left
      rw [hc]
      obtain account|⟨_,bonded⟩ := h.accounts ((disseminator,cumulSize)::before) entry after
        (by rw [split]; rfl)
      · exact Or.inl (Or.inl account)
      · exact Or.inr bonded
    · intro entry he
      rw [hp]
      split
      · next same => exact (List.pairwise_cons.mp h.growing).1 entry he same.symm
      · exact h.paid entry (List.mem_cons_of_mem _ he)
  · intro ⟨known,paid,h⟩
    have grown : ∀ entry ∈ pending,entry.1=disseminator → cumulSize ≤ entry.2 := by
      intro entry he same
      have least := h.paid entry he
      rwa [hp,if_pos same] at least
    refine ⟨?_,?_,?_⟩
    · intro before entry after split
      cases before with
      | nil =>
        obtain ⟨rfl,_⟩ := List.cons.inj split
        exact Or.inl known
      | cons first before =>
        obtain ⟨_,rest⟩ := List.cons.inj split
        have account : next.contains entry.1=true ∨ before≠[] ∧ entry.1 ∈ bonded :=
          h.accounts before entry after rest
        rw [hc] at account
        obtain ((account|same)|bonded)|⟨_,bonded⟩ := account
        · exact Or.inl account
        · rw [same]
          exact Or.inl known
        · exact Or.inr ⟨by simp,bonded⟩
        · exact Or.inr ⟨by simp,bonded⟩
    · intro entry he
      obtain rfl|he := List.mem_cons.mp he
      · exact paid
      · have least := h.paid entry he
        rw [hp] at least
        split at least
        · next same =>
          rw [same]
          exact UInt64.le_trans paid least
        · exact least
    · rw [List.pairwise_cons]
      exact ⟨fun entry he same => grown entry he same.symm,h.growing⟩

section Charge
variable {bonded : List ValidatorPublicKey} {balances : Balances}
  {disseminator v : ValidatorPublicKey} {state : ValidatorFeeState} {cumulSize : LaneBytesSize}
  {pending : List (ValidatorPublicKey × LaneBytesSize)}

/-- The balances after a payment has been charged and shared out. -/
def shareOut (bonded : List ValidatorPublicKey) (balances : Balances)
    (disseminator : ValidatorPublicKey) (state : ValidatorFeeState) (cumulSize : LaneBytesSize) :
    Balances :=
  let fee : I128 := BitVec.ofNat 128 (cumulSize-state.paidCumulSize).toNat
  bonded.foldl
    (fun m validator => credit m validator (fee.sdiv (BitVec.ofNat 128 bonded.length)))
    (balances.insert disseminator ⟨state.balance-fee,cumulSize⟩)

theorem contains_shareOut :
    (shareOut bonded balances disseminator state cumulSize).contains v=true ↔
      (balances.contains v=true ∨ v=disseminator) ∨ v ∈ bonded := by
  rw [shareOut,contains_share,contains_insert_iff]

theorem paidSize_shareOut : paidSize (shareOut bonded balances disseminator state cumulSize) v=
    if v=disseminator then cumulSize else paidSize balances v := by
  rw [shareOut,paidSize_share,paidSize_insert]

theorem contains_of_getElem? (h : balances[v]?=some state) : balances.contains v=true := by
  rw [Std.ExtTreeMap.contains_eq_isSome_getElem?,h]
  rfl

theorem paidSize_of_getElem? (h : balances[v]?=some state) :
    paidSize balances v=state.paidCumulSize := by
  rw [paidSize,Std.ExtTreeMap.getD_eq_getD_getElem?,h]
  rfl

/-- An account that can be charged is charged. -/
theorem distributeOne_eq (hb : bonded≠[]) (hs : balances[disseminator]?=some state)
    (hp : state.paidCumulSize ≤ cumulSize) : distributeOne bonded balances disseminator cumulSize=
      (.ok (),shareOut bonded balances disseminator state cumulSize) := by
  have some_bonded : bonded.length≠0 := fun h => hb (List.eq_nil_of_length_eq_zero h)
  unfold distributeOne
  simp only [hs,if_neg (UInt64.not_lt.mpr hp),if_neg some_bonded]
  rfl

theorem distributeAll_cons (hb : bonded≠[]) (hs : balances[disseminator]?=some state)
    (hp : state.paidCumulSize ≤ cumulSize) :
    distributeAll bonded ((disseminator,cumulSize)::pending) balances=
      distributeAll bonded pending (shareOut bonded balances disseminator state cumulSize) := by
  rw [distributeAll,distributeOne_eq hb hs hp]

/-- What the first of the fees to be distributed meets and leaves. -/
theorem Distributable.head
    (h : Distributable bonded balances ((disseminator,cumulSize)::pending)) :
    ∃ state,balances[disseminator]?=some state ∧ state.paidCumulSize ≤ cumulSize ∧
      Distributable bonded (shareOut bonded balances disseminator state cumulSize) pending := by
  have known : balances.contains disseminator=true :=
    (h.accounts [] _ pending rfl).resolve_right fun other => other.1 rfl
  rw [Std.ExtTreeMap.contains_eq_isSome_getElem?,Option.isSome_iff_exists] at known
  obtain ⟨state,hs⟩ := known
  obtain ⟨_,paid,rest⟩ := (distributable_cons (fun v => contains_shareOut)
    fun v => @paidSize_shareOut bonded balances disseminator v state cumulSize).mp h
  rw [paidSize_of_getElem? hs] at paid
  exact ⟨state,hs,paid,rest⟩

end Charge

/-- Pending fees are distributed without an error exactly if they are distributable. -/
theorem distributeAll_eq_ok {bonded : List ValidatorPublicKey} (hb : bonded≠[])
    {balances : Balances} {pending : List (ValidatorPublicKey × LaneBytesSize)} :
    (distributeAll bonded pending balances).1=.ok () ↔ Distributable bonded balances pending := by
  induction pending generalizing balances with
  | nil => exact ⟨fun _ => ⟨by simp,by simp,List.Pairwise.nil⟩,fun _ => rfl⟩
  | cons entry pending ih =>
    obtain ⟨disseminator,cumulSize⟩ := entry
    cases hs : balances[disseminator]? with
    | none =>
      have unknown : balances.contains disseminator=false := by
        rw [Std.ExtTreeMap.contains_eq_isSome_getElem?,hs]
        rfl
      unfold distributeAll distributeOne
      simp only [hs,err,reduceCtorEq,false_iff]
      intro h
      obtain known|⟨first,_⟩ := h.accounts [] _ pending rfl
      · rw [unknown] at known
        cases known
      · exact first rfl
    | some state =>
      by_cases less : cumulSize<state.paidCumulSize
      · unfold distributeAll distributeOne
        simp only [hs,if_pos less,err,reduceCtorEq,false_iff]
        intro h
        have least := h.paid _ List.mem_cons_self
        rw [paidSize_of_getElem? hs] at least
        exact UInt64.not_lt.mpr least less
      · have enough := UInt64.not_lt.mp less
        rw [distributeAll_cons hb hs enough,ih,distributable_cons (fun v => contains_shareOut)
          fun v => @paidSize_shareOut bonded balances disseminator v state cumulSize,paidSize_of_getElem? hs]
        simp only [contains_of_getElem? hs,enough,true_and]

/-- Only who is bonded matters, not in which order. -/
theorem Distributable.congr {bonded bonded' : List ValidatorPublicKey} {balances : Balances}
    {pending : List (ValidatorPublicKey × LaneBytesSize)}
    (hm : ∀ v,v ∈ bonded ↔ v ∈ bonded') :
    Distributable bonded balances pending ↔ Distributable bonded' balances pending := by
  constructor
  · intro h
    refine ⟨?_,h.paid,h.growing⟩
    intro before entry after split
    exact (h.accounts before entry after split).imp id fun ⟨first,hb⟩ => ⟨first,(hm _).mp hb⟩
  · intro h
    refine ⟨?_,h.paid,h.growing⟩
    intro before entry after split
    exact (h.accounts before entry after split).imp id fun ⟨first,hb⟩ => ⟨first,(hm _).mpr hb⟩

end Fees

namespace Staking

variable {self next : Staking} {v w : ValidatorPublicKey}

/-- The validator can be bonded: it is not yet, and has the stake. -/
def Bondable (self : Staking) (v : ValidatorPublicKey) : Prop :=
  v∉self.bonded ∧ ∃ stake,self.getStake v=some stake ∧ ¬stake<MIN_STAKE

def bonding (self : Staking) (v : ValidatorPublicKey) : Staking :=
  { self with
    bonded := (self.bonded++[v]).mergeSort (fun v w => (compare v w).isLE)
    totalBond := self.totalBond+(self.getStake v).getD 0 }

theorem bond_of_bondable (h : self.Bondable v) : self.bond v=.ok (self.bonding v) := by
  obtain ⟨fresh,stake,hs,enough⟩ := h
  have unknown : self.isBonded v=false := by
    simpa [isBonded] using fun w hw (same : w=v) => fresh (same ▸ hw)
  unfold bond bonding
  simp only [unknown,hs,if_neg enough,Bool.false_eq_true,if_false,Option.getD_some]

theorem bondable_of_bond (h : self.bond v=.ok next) : self.Bondable v := by
  unfold bond at h
  split_ifs at h with known
  have fresh : v∉self.bonded := by
    simpa [isBonded] using known
  cases hs : self.getStake v with
  | none => simp [hs] at h
  | some stake =>
    simp only [hs] at h
    split_ifs at h with less
    exact ⟨fresh,stake,hs,less⟩

/-- Bonding succeeds exactly for who can be bonded. -/
theorem applied_bond_eq_ok : (self.applied (self.bond v)).1=.ok () ↔ self.Bondable v := by
  constructor
  · intro h
    cases hb : self.bond v with
    | error e => simp [applied,hb] at h
    | ok next => exact bondable_of_bond hb
  · intro h
    rw [bond_of_bondable h]
    rfl

@[simp] theorem mem_bonded_bonding : w ∈ (self.bonding v).bonded ↔ w ∈ self.bonded ∨ w=v := by
  simp [bonding]

@[simp] theorem getStake_bonding : (self.bonding v).getStake w=self.getStake w := rfl

theorem bondable_bonding : (self.bonding v).Bondable w ↔ self.Bondable w ∧ w≠v := by
  unfold Bondable
  rw [mem_bonded_bonding,getStake_bonding,not_or]
  exact and_right_comm

/-- Several validators can be bonded one after the other if each can and none comes twice. -/
theorem bondable_cons {vs : List ValidatorPublicKey} :
    (∀ w ∈ v::vs,self.Bondable w) ∧ (v::vs).Nodup ↔
      self.Bondable v ∧ (∀ w ∈ vs,(self.bonding v).Bondable w) ∧ vs.Nodup := by
  simp only [List.forall_mem_cons,List.nodup_cons,bondable_bonding]
  constructor
  · intro ⟨⟨first,rest⟩,fresh,distinct⟩
    exact ⟨first,fun w hw => ⟨rest w hw,fun same => fresh (same ▸ hw)⟩,distinct⟩
  · intro ⟨first,rest,distinct⟩
    exact ⟨⟨first,fun w hw => (rest w hw).1⟩,fun hv => (rest v hv).2 rfl,distinct⟩

end Staking

end TruthSeeker
