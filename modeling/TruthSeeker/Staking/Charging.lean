import TruthSeeker.Staking.Applying

namespace TruthSeeker

open Outcome

namespace Fees

variable {later accounts : ValidatorPublicKey → Prop} {balances next : Balances}
  {bonded : List ValidatorPublicKey} {pending : List (ValidatorPublicKey × LaneBytesSize)}

/-- The distribution of the payments, where what has been paid is a function, charges nobody.
Each payment is refused, for the lack of an account or a size that falls, and with it those
that follow; or it is of a size that has been paid, and then every bonded validator has an account
from now on, which is to be one it has later in any case. -/
def Idle (later : ValidatorPublicKey → Prop) (bonded : List ValidatorPublicKey)
    (paid : ValidatorPublicKey → LaneBytesSize) :
    (ValidatorPublicKey → Prop) → List (ValidatorPublicKey × LaneBytesSize) → Prop
  | _,[] => True
  | accounts,(disseminator,cumulSize)::pending =>
      ¬(accounts disseminator ∧ paid disseminator ≤ cumulSize) ∨
      paid disseminator=cumulSize ∧ (∀ v ∈ bonded,later v) ∧
        Idle later bonded paid (fun v => accounts v ∨ v ∈ bonded) pending

/-- The second balances are the first ones but for empty accounts of validators that have one
later. -/
def Opens (later : ValidatorPublicKey → Prop) (balances next : Balances) : Prop :=
  ∀ v : ValidatorPublicKey,next[v]?=balances[v]? ∨
    balances[v]?=none ∧ next[v]?=some ⟨0,0⟩ ∧ later v

theorem Opens.refl : Opens later balances balances := fun _ => Or.inl rfl

theorem Opens.trans {last : Balances} (h : Opens later balances next) (hn : Opens later next last) :
    Opens later balances last := by
  intro v
  obtain same|⟨missing,zero,known⟩ := hn v
  · rw [same]
    exact h v
  · obtain before|⟨_,before,_⟩ := h v
    · exact Or.inr ⟨before.symm.trans missing,zero,known⟩
    · rw [before] at missing
      cases missing

theorem Opens.mono {later' : ValidatorPublicKey → Prop} (h : Opens later balances next)
    (hl : ∀ v,later v → later' v) : Opens later' balances next := by
  intro v
  exact (h v).imp id fun ⟨missing,zero,known⟩ => ⟨missing,zero,hl v known⟩

/-- Once everyone who has an account later has it, nothing is left between the two. -/
theorem Opens.eq (h : Opens later balances next) (hl : ∀ v,later v → balances.contains v=true) :
    next=balances := by
  apply Std.ExtTreeMap.ext_getElem?
  intro v
  obtain same|⟨missing,_,known⟩ := h v
  · exact same
  · have account := hl v known
    rw [Std.ExtTreeMap.contains_eq_isSome_getElem?,missing] at account
    cases account

theorem getElem?_insert_key {holder v : ValidatorPublicKey} {state : ValidatorFeeState} :
    (balances.insert holder state)[v]?=if v=holder then some state else balances[v]? := by
  rw [Std.ExtTreeMap.getElem?_insert]
  by_cases same : v=holder
  · subst same
    simp
  · have apart : compare holder v≠.eq := fun eq => same (Std.LawfulEqCmp.eq_of_compare eq).symm
    rw [if_neg apart,if_neg same]

theorem getElem?_credit {holder v : ValidatorPublicKey} {amount : I128} :
    (credit balances holder amount)[v]?=
      if v=holder then
        some { balances[holder]?.getD ⟨0,0⟩ with
          balance := (balances[holder]?.getD ⟨0,0⟩).balance+amount }
      else balances[v]? := by
  unfold credit
  rw [getElem?_insert_key,Std.ExtTreeMap.getD_eq_getD_getElem?]

theorem Opens.paidSize (h : Opens later balances next) (v : ValidatorPublicKey) :
    paidSize next v=paidSize balances v := by
  unfold Fees.paidSize
  rw [Std.ExtTreeMap.getD_eq_getD_getElem?,Std.ExtTreeMap.getD_eq_getD_getElem?]
  obtain same|⟨missing,zero,_⟩ := h v
  · rw [same]
  · rw [missing,zero]
    rfl

theorem Opens.contains (h : Opens later balances next) {v : ValidatorPublicKey}
    (hv : next.contains v=true) : balances.contains v=true ∨ later v := by
  obtain same|⟨_,_,known⟩ := h v
  · left
    rwa [Std.ExtTreeMap.contains_eq_isSome_getElem?,← same,
      ← Std.ExtTreeMap.contains_eq_isSome_getElem?]
  · exact Or.inr known

/-- A deposit forgets whether the account has been open before. -/
theorem Opens.credit (h : Opens later balances next) (holder : ValidatorPublicKey)
    (amount : I128) : Opens later (credit balances holder amount) (credit next holder amount) := by
  intro v
  rw [getElem?_credit,getElem?_credit]
  by_cases same : v=holder
  · left
    rw [if_pos same,if_pos same]
    obtain equal|⟨missing,zero,_⟩ := h holder
    · rw [equal]
    · rw [missing,zero]
      rfl
  · rw [if_neg same,if_neg same]
    exact h v

theorem opens_credit_zero {holder : ValidatorPublicKey} (h : later holder) :
    Opens later balances (Fees.credit balances holder 0) := by
  intro v
  rw [getElem?_credit]
  by_cases same : v=holder
  · subst same
    rw [if_pos rfl]
    cases hs : balances[v]? with
    | none => exact Or.inr ⟨rfl,by simp,h⟩
    | some state => exact Or.inl (by simp)
  · rw [if_neg same]
    exact Or.inl rfl

theorem opens_share_zero (h : ∀ v ∈ bonded,later v) :
    Opens later balances (bonded.foldl (fun m v => Fees.credit m v 0) balances) := by
  induction bonded generalizing balances with
  | nil => exact Opens.refl
  | cons holder bonded ih =>
    have opened : Opens later balances (Fees.credit balances holder 0) :=
      opens_credit_zero (h holder List.mem_cons_self)
    exact opened.trans (ih fun v hv => h v (List.mem_cons_of_mem _ hv))

/-- What the charge of a size that has been paid leaves. -/
theorem insert_paid {disseminator : ValidatorPublicKey} {state : ValidatorFeeState}
    (hs : balances[disseminator]?=some state) :
    balances.insert disseminator ⟨state.balance-(BitVec.ofNat 128
      (state.paidCumulSize-state.paidCumulSize).toNat : I128),state.paidCumulSize⟩=balances := by
  apply Std.ExtTreeMap.ext_getElem?
  intro v
  rw [getElem?_insert_key]
  by_cases same : v=disseminator
  · subst same
    rw [if_pos rfl,hs]
    simp
  · rw [if_neg same]

/-- Payments that charge nobody open accounts at most. -/
theorem opens_distributeAll {paid : ValidatorPublicKey → LaneBytesSize}
    (h : Idle later bonded paid accounts pending) (hp : ∀ v,paidSize balances v=paid v)
    (ha : ∀ v,balances.contains v=true → accounts v) :
    Opens later balances (distributeAll bonded pending balances).2 := by
  induction pending generalizing balances accounts with
  | nil => exact Opens.refl
  | cons entry pending ih =>
    obtain ⟨disseminator,cumulSize⟩ := entry
    unfold distributeAll distributeOne
    cases hs : balances[disseminator]? with
    | none => exact Opens.refl
    | some state =>
      have size : paid disseminator=state.paidCumulSize := by
        rw [← hp,paidSize,Std.ExtTreeMap.getD_eq_getD_getElem?,hs]
        rfl
      by_cases less : cumulSize<state.paidCumulSize
      · simp only [if_pos less]
        exact Opens.refl
      · have accepted : accounts disseminator ∧ paid disseminator ≤ cumulSize :=
          ⟨ha _ (contains_of_getElem? hs),by rw [size]; exact UInt64.not_lt.mp less⟩
        obtain ⟨equal,known,rest⟩ := Or.resolve_left h (not_not_intro accepted)
        obtain rfl : cumulSize=state.paidCumulSize := equal.symm.trans size
        simp only [if_neg less,insert_paid hs]
        by_cases nobody : bonded.length=0
        · simp only [if_pos nobody]
          exact Opens.refl
        · have free : (BitVec.ofNat 128 (state.paidCumulSize-state.paidCumulSize).toNat :
              I128).sdiv (BitVec.ofNat 128 bonded.length)=0 := by simp
          simp only [if_neg nobody,free]
          have opened : Opens later balances
              (bonded.foldl (fun m v => Fees.credit m v 0) balances) := opens_share_zero known
          apply opened.trans
          apply ih rest
          · intro v
            rw [paidSize_share,hp]
          · intro v hv
            exact (contains_share.mp hv).imp (ha v) id

/-- No charge is taken back. -/
theorem paidSize_distributeAll (v : ValidatorPublicKey) :
    paidSize balances v ≤ paidSize (distributeAll bonded pending balances).2 v ∧
      (balances.contains v=true → (distributeAll bonded pending balances).2.contains v=true) := by
  induction pending generalizing balances with
  | nil => exact ⟨UInt64.le_refl _,id⟩
  | cons entry pending ih =>
    obtain ⟨disseminator,cumulSize⟩ := entry
    unfold distributeAll distributeOne
    cases hs : balances[disseminator]? with
    | none => exact ⟨UInt64.le_refl _,id⟩
    | some state =>
      by_cases less : cumulSize<state.paidCumulSize
      · simp only [if_pos less]
        exact ⟨UInt64.le_refl _,id⟩
      · have grown (charged : ValidatorFeeState) (hc : charged.paidCumulSize=cumulSize) :
            paidSize balances v ≤ paidSize (balances.insert disseminator charged) v := by
          rw [paidSize_insert]
          split
          · next same =>
            rw [same,paidSize,Std.ExtTreeMap.getD_eq_getD_getElem?,hs,hc]
            exact UInt64.not_lt.mp less
          · exact UInt64.le_refl _
        by_cases nobody : bonded.length=0
        · simp only [if_neg less,if_pos nobody]
          exact ⟨grown _ rfl,fun hv => contains_insert_iff.mpr (Or.inl hv)⟩
        · simp only [if_neg less,if_neg nobody]
          generalize hn : bonded.foldl _ (balances.insert disseminator _)=next
          have size : paidSize balances v ≤ paidSize next v := by
            rw [← hn,paidSize_share]
            exact grown _ rfl
          refine ⟨UInt64.le_trans size ih.1,?_⟩
          intro hv
          apply ih.2
          rw [← hn,contains_share,contains_insert_iff]
          exact Or.inl (Or.inl hv)

/-- The payments charge nobody if no recorded size has grown and who has an account has one
later in any case. -/
theorem idle_of_distributeAll (hb : bonded≠[])
    (hp : ∀ v,paidSize (distributeAll bonded pending balances).2 v=paidSize balances v)
    (hl : ∀ v,(distributeAll bonded pending balances).2.contains v=true → later v) :
    Idle later bonded (paidSize balances) (fun v => balances.contains v=true) pending := by
  induction pending generalizing balances with
  | nil => trivial
  | cons entry pending ih =>
    obtain ⟨disseminator,cumulSize⟩ := entry
    apply or_iff_not_imp_left.mpr
    intro accepted
    obtain ⟨account,enough⟩ := not_not.mp accepted
    rw [Std.ExtTreeMap.contains_eq_isSome_getElem?,Option.isSome_iff_exists] at account
    obtain ⟨state,hs⟩ := account
    rw [paidSize_of_getElem? hs] at enough
    simp only [distributeAll_cons hb hs enough] at hp hl
    generalize hn : shareOut bonded balances disseminator state cumulSize=next at hp hl
    have sizes : ∀ v,paidSize next v=if v=disseminator then cumulSize else paidSize balances v := by
      intro v
      rw [← hn,paidSize_shareOut]
    have accounts : ∀ v,next.contains v=true ↔ balances.contains v=true ∨ v ∈ bonded := by
      intro v
      have own : balances.contains v=true ∨ v=disseminator ↔ balances.contains v=true :=
        or_iff_left_of_imp (by rintro rfl; exact contains_of_getElem? hs)
      rw [← hn,contains_shareOut,own]
    rw [← paidSize_of_getElem? hs] at enough
    have equal : paidSize balances disseminator=cumulSize := by
      have grown : paidSize next disseminator ≤
          paidSize (distributeAll bonded pending next).2 disseminator :=
        (paidSize_distributeAll disseminator).1
      rw [hp,sizes,if_pos rfl] at grown
      exact UInt64.le_antisymm enough grown
    have same : paidSize next=paidSize balances := by
      funext v
      rw [sizes]
      split
      · next hv => rw [hv,equal]
      · rfl
    refine ⟨equal,?_,?_⟩
    · intro v hv
      exact hl v ((paidSize_distributeAll v).2 ((accounts v).mpr (Or.inr hv)))
    · have rest := @ih next (fun v => (hp v).trans (congrFun same v).symm) hl
      simp only [same,accounts] at rest
      exact rest

end Fees

end TruthSeeker
