import TruthSeeker.Staking.Charging

namespace TruthSeeker

open Outcome

namespace Staking

/-- Those who receive deposits in the staking actions of a block. -/
def depositors (actions : List (Identity × StakingAction)) : List ValidatorPublicKey :=
  actions.filterMap fun
    | (_,.depositForFees holder _) => some holder
    | _ => none

/-- Those who stake in the staking actions of a block. -/
def stakersOf (actions : List (Identity × StakingAction)) : List Identity :=
  actions.filterMap fun
    | (staker,.stake _) => some staker
    | _ => none

/-- Those who delegate in the staking actions of a block. -/
def delegatorsOf (actions : List (Identity × StakingAction)) : List Identity :=
  actions.filterMap fun
    | (staker,.delegate _) => some staker
    | _ => none

def Delegating (self : Staking) (staker : Identity) : Prop :=
  ∃ (v : ValidatorPublicKey) (delegators : List Identity),
    self.delegations[v]?=some delegators ∧ staker ∈ delegators

/-- The staking actions of a block can be processed: nobody stakes or delegates a second time,
and nothing is claimed. -/
structure Accepts (staking : Staking) (actions : List (Identity × StakingAction)) : Prop where
  stakes : ∀ staker ∈ stakersOf actions,staking.stakes.contains staker=false
  stakesOnce : (stakersOf actions).Nodup
  delegates : ∀ staker ∈ delegatorsOf actions,¬staking.Delegating staker
  delegatesOnce : (delegatorsOf actions).Nodup
  unclaimed : ∀ entry ∈ actions,∀ claim,entry.2≠.distribute claim

variable {self : Staking} {staker other : Identity}

theorem any_contains_iff :
    self.delegations.toList.any (fun p => p.2.contains staker)=true ↔ self.Delegating staker := by
  simp only [List.any_eq_true,Delegating,List.contains_iff_mem]
  constructor
  · intro ⟨p,hp,hm⟩
    exact ⟨p.1,p.2,Std.ExtTreeMap.mem_toList_iff_getElem?_eq_some.mp hp,hm⟩
  · intro ⟨v,delegators,hs,hm⟩
    exact ⟨(v,delegators),Std.ExtTreeMap.mem_toList_iff_getElem?_eq_some.mpr hs,hm⟩

/-- Who delegates once somebody more does. -/
theorem delegating_insert {validator : ValidatorPublicKey} {next : Staking}
    (hn : next.delegations=self.delegations.insert validator
      (self.delegations.getD validator []++[staker])) :
    next.Delegating other ↔ self.Delegating other ∨ other=staker := by
  have value : ∀ v,(self.delegations.insert validator
      (self.delegations.getD validator []++[staker]))[v]?=if v=validator then
        some (self.delegations.getD validator []++[staker]) else self.delegations[v]? := by
    intro v
    rw [Std.ExtTreeMap.getElem?_insert]
    by_cases same : v=validator
    · subst same
      simp
    · have apart : compare validator v≠.eq :=
        fun eq => same (Std.LawfulEqCmp.eq_of_compare eq).symm
      rw [if_neg apart,if_neg same]
  unfold Delegating
  simp only [hn,value]
  constructor
  · rintro ⟨v,delegators,hs,hm⟩
    split at hs
    · obtain rfl := Option.some.inj hs
      obtain hm|hm := List.mem_append.mp hm
      · left
        rw [Std.ExtTreeMap.getD_eq_getD_getElem?] at hm
        cases hv : self.delegations[validator]? with
        | none => simp [hv] at hm
        | some before => exact ⟨validator,before,hv,by simpa [hv] using hm⟩
      · exact Or.inr (List.mem_singleton.mp hm)
    · exact Or.inl ⟨v,delegators,hs,hm⟩
  · rintro (⟨v,delegators,hs,hm⟩|rfl)
    · by_cases same : v=validator
      · refine ⟨v,_,if_pos same,?_⟩
        rw [← same,Std.ExtTreeMap.getD_eq_getD_getElem?,hs]
        exact List.mem_append_left _ hm
      · exact ⟨v,delegators,by rw [if_neg same]; exact hs,hm⟩
    · exact ⟨validator,_,if_pos rfl,by simp⟩

variable {entry : Identity × StakingAction} {actions : List (Identity × StakingAction)}

theorem contains_insert_staker {amount : U128} :
    (self.stakes.insert staker amount).contains other=false ↔
      self.stakes.contains other=false ∧ other≠staker := by
  rw [Std.ExtTreeMap.contains_insert,Bool.or_eq_false_iff,beq_eq_false_iff_ne,
    Ne,Std.LawfulEqCmp.compare_eq_iff_eq,and_comm,@eq_comm _ staker]

theorem processAction_stake {amount : U128} (h : self.stakes.contains staker=false) :
    self.processAction (staker,.stake amount)=
      (.ok (),{ self with stakes := self.stakes.insert staker amount }) := by
  simp [processAction,stake,h,applied,Except.map]

theorem processAction_staked {amount : U128} (h : self.stakes.contains staker=true) :
    (self.processAction (staker,.stake amount)).1≠.ok () := by
  simp [processAction,stake,h,applied,Except.map,err]

theorem processAction_delegate {validator : ValidatorPublicKey} (h : ¬self.Delegating staker) :
    self.processAction (staker,.delegate validator)=
      (.ok (),{ self with
        delegations := self.delegations.insert validator
          (self.delegations.getD validator []++[staker]) }) := by
  have unknown : self.delegations.toList.any (fun p => p.2.contains staker)=false := by
    rwa [← Bool.not_eq_true,any_contains_iff]
  simp only [processAction,delegateTo,unknown]
  rfl

theorem processAction_delegating {validator : ValidatorPublicKey} (h : self.Delegating staker) :
    (self.processAction (staker,.delegate validator)).1≠.ok () := by
  unfold processAction delegateTo
  simp only [if_pos (any_contains_iff.mpr h)]
  simp [applied,Except.map,err]

/-- The first action can be processed, and the others after it. -/
theorem accepts_cons : self.Accepts (entry::actions) ↔
    (self.processAction entry).1=.ok () ∧ (self.processAction entry).2.Accepts actions := by
  obtain ⟨staker,amount|validator|claim|⟨holder,amount⟩⟩ := entry
  · cases known : self.stakes.contains staker with
    | true =>
      have fails : (self.processAction (staker,.stake amount)).1≠.ok () :=
        processAction_staked known
      constructor
      · intro h
        rw [h.stakes staker List.mem_cons_self] at known
        cases known
      · intro h
        exact absurd h.1 fails
    | false =>
      have acts : self.processAction (staker,.stake amount)=_ := processAction_stake known
      rw [acts]
      constructor
      · intro h
        obtain ⟨fresh,once⟩ := List.nodup_cons.mp h.stakesOnce
        refine ⟨rfl,?_,once,h.delegates,h.delegatesOnce,?_⟩
        · intro other hs
          apply contains_insert_staker.mpr
          exact ⟨h.stakes other (List.mem_cons_of_mem _ hs),fun same => fresh (same ▸ hs)⟩
        · exact fun entry he => h.unclaimed entry (List.mem_cons_of_mem _ he)
      · intro ⟨_,h⟩
        refine ⟨?_,List.nodup_cons.mpr ⟨?_,h.stakesOnce⟩,h.delegates,h.delegatesOnce,?_⟩
        · intro other hs
          obtain rfl|hs := List.mem_cons.mp hs
          · exact known
          · exact (contains_insert_staker.mp (h.stakes other hs)).1
        · intro again
          exact (contains_insert_staker.mp (h.stakes staker again)).2 rfl
        · exact List.forall_mem_cons.mpr ⟨by simp,h.unclaimed⟩
  · by_cases known : self.Delegating staker
    · have fails : (self.processAction (staker,.delegate validator)).1≠.ok () :=
        processAction_delegating known
      constructor
      · intro h
        exact absurd known (h.delegates staker List.mem_cons_self)
      · intro h
        exact absurd h.1 fails
    · obtain ⟨next,acts,stakes,delegations⟩ : ∃ next,
          self.processAction (staker,.delegate validator)=(.ok (),next) ∧
          next.stakes=self.stakes ∧ next.delegations=self.delegations.insert validator
            (self.delegations.getD validator []++[staker]) :=
        ⟨_,processAction_delegate known,rfl,rfl⟩
      have delegating : ∀ other,next.Delegating other ↔ self.Delegating other ∨ other=staker :=
        fun other => delegating_insert delegations
      rw [acts]
      constructor
      · intro h
        obtain ⟨fresh,once⟩ := List.nodup_cons.mp h.delegatesOnce
        refine ⟨rfl,by rw [stakes]; exact h.stakes,h.stakesOnce,?_,once,?_⟩
        · intro other hd
          rw [delegating,not_or]
          exact ⟨h.delegates other (List.mem_cons_of_mem _ hd),fun same => fresh (same ▸ hd)⟩
        · exact fun entry he => h.unclaimed entry (List.mem_cons_of_mem _ he)
      · intro ⟨_,h⟩
        have later := h.delegates
        simp only [delegating,not_or] at later
        refine ⟨by rw [← stakes]; exact h.stakes,h.stakesOnce,?_,
          List.nodup_cons.mpr ⟨fun again => (later staker again).2 rfl,h.delegatesOnce⟩,?_⟩
        · intro other hd
          obtain rfl|hd := List.mem_cons.mp hd
          · exact known
          · exact (later other hd).1
        · exact List.forall_mem_cons.mpr ⟨by simp,h.unclaimed⟩
  · constructor
    · intro h
      exact absurd rfl (h.unclaimed _ List.mem_cons_self claim)
    · intro h
      cases h.1
  · constructor
    · intro h
      refine ⟨rfl,h.stakes,h.stakesOnce,h.delegates,h.delegatesOnce,?_⟩
      exact fun entry he => h.unclaimed entry (List.mem_cons_of_mem _ he)
    · intro ⟨_,h⟩
      refine ⟨h.stakes,h.stakesOnce,h.delegates,h.delegatesOnce,?_⟩
      exact List.forall_mem_cons.mpr ⟨by simp,h.unclaimed⟩

theorem processEach_processAction_eq_ok :
    (processEach processAction actions self).1=.ok () ↔ self.Accepts actions := by
  induction actions generalizing self with
  | nil => exact ⟨fun _ => ⟨by simp [stakersOf],List.nodup_nil,by simp [delegatorsOf],
      List.nodup_nil,by simp⟩,fun _ => rfl⟩
  | cons entry actions ih =>
    rw [accepts_cons,← ih]
    simp only [processEach]
    rcases self.processAction entry with ⟨fault|u,next⟩ <;> simp

/-- What holds between the states before and after each entry, whether it fails or not, holds
between those before and after all of them. -/
theorem processEach_keeps {α : Type} {process : Staking → α → Outcome Unit × Staking}
    {R : Staking → Staking → Prop} (hr : ∀ self,R self self)
    (ht : ∀ first second third,R first second → R second third → R first third)
    (hp : ∀ self a,R self (process self a).2) {entries : List α} :
    R self (processEach process entries self).2 := by
  induction entries generalizing self with
  | nil => exact hr self
  | cons a entries ih =>
    have first := hp self a
    simp only [processEach]
    split
    · next next hn =>
      rw [hn] at first
      exact ht _ _ _ first ih
    · exact first

theorem bonded_processAction {entry : Identity × StakingAction} :
    (self.processAction entry).2.bonded=self.bonded := by
  obtain ⟨staker,amount|validator|claim|⟨holder,amount⟩⟩ := entry
  · simp only [processAction,stake]
    split <;> rfl
  · simp only [processAction,delegateTo]
    split <;> rfl
  · rfl
  · rfl

theorem bonded_processEach {actions : List (Identity × StakingAction)} :
    (processEach processAction actions self).2.bonded=self.bonded :=
  processEach_keeps (R := fun before after => after.bonded=before.bonded) (fun _ => rfl)
    (fun _ _ _ first second => second.trans first) fun _ _ => bonded_processAction

/-- Two states that each entry treats alike are treated alike by all of them. -/
theorem processEach_alike {α : Type} {process : Staking → α → Outcome Unit × Staking}
    {R : Staking → Staking → Prop}
    (hp : ∀ self next a,R self next →
      (process next a).1=(process self a).1 ∧ R (process self a).2 (process next a).2)
    {entries : List α} {next : Staking} (h : R self next) :
    (processEach process entries next).1=(processEach process entries self).1 ∧
      R (processEach process entries self).2 (processEach process entries next).2 := by
  induction entries generalizing self next with
  | nil => exact ⟨rfl,h⟩
  | cons a entries ih =>
    obtain ⟨same,alike⟩ := hp self next a h
    simp only [processEach]
    rcases hs : process self a with ⟨result,self'⟩
    rcases hn : process next a with ⟨result',next'⟩
    rw [hs,hn] at same alike
    obtain rfl : result'=result := same
    cases result' with
    | error fault => exact ⟨rfl,alike⟩
    | ok u => exact ih alike

/-- Processing a block takes no fee: what is pending and what has been paid stays, and so does
every account. -/
structure Uncharged (before after : Staking) : Prop where
  pending : after.fees.pendingFees=before.fees.pendingFees
  sizes : Fees.paidSize after.fees.balances=Fees.paidSize before.fees.balances
  accounts : ∀ v,before.fees.balances.contains v=true → after.fees.balances.contains v=true

theorem Uncharged.refl : Uncharged self self := ⟨rfl,rfl,fun _ => id⟩

theorem Uncharged.trans {first second third : Staking} (h : Uncharged first second)
    (hn : Uncharged second third) : Uncharged first third :=
  ⟨hn.pending.trans h.pending,hn.sizes.trans h.sizes,fun v hv => hn.accounts v (h.accounts v hv)⟩

theorem Uncharged.of_fees {next : Staking} (h : next.fees=self.fees) : Uncharged self next := by
  refine ⟨by rw [h],by rw [h],?_⟩
  intro v hv
  rwa [h]

theorem uncharged_applied {result : Except String Staking}
    (h : ∀ next,result=.ok next → next.fees=self.fees) : Uncharged self (self.applied result).2 := by
  cases result with
  | error e => exact Uncharged.refl
  | ok next => exact Uncharged.of_fees (h next rfl)

/-- What an action does to the fees: a deposit opens an account at most. -/
theorem processAction_fees : Uncharged self (self.processAction entry).2 ∧
    ∀ v,(self.processAction entry).2.fees.balances.contains v=true →
      self.fees.balances.contains v=true ∨ v ∈ depositors [entry] := by
  obtain ⟨staker,amount|validator|claim|⟨holder,amount⟩⟩ := entry
  · have same : (self.processAction (staker,.stake amount)).2.fees=self.fees := by
      simp only [processAction,stake]
      split <;> rfl
    exact ⟨Uncharged.of_fees same,fun v hv => Or.inl (same ▸ hv)⟩
  · have same : (self.processAction (staker,.delegate validator)).2.fees=self.fees := by
      simp only [processAction,delegateTo]
      split <;> rfl
    exact ⟨Uncharged.of_fees same,fun v hv => Or.inl (same ▸ hv)⟩
  · exact ⟨Uncharged.refl,fun v hv => Or.inl hv⟩
  · refine ⟨⟨rfl,?_,?_⟩,?_⟩
    · funext v
      exact Fees.paidSize_credit
    · exact fun v hv => Fees.contains_credit.mpr (Or.inl hv)
    · intro v hv
      simpa [depositors] using Fees.contains_credit.mp hv

theorem uncharged_processEach : Uncharged self (processEach processAction actions self).2 :=
  processEach_keeps (R := Uncharged) (fun _ => .refl) (fun _ _ _ => .trans)
    fun _ _ => processAction_fees.1

theorem uncharged_processBlock {block : Block} : Uncharged self (self.processBlock block).2 := by
  have acted : Uncharged self (processEach processAction block.stakingActions self).2 :=
    uncharged_processEach
  unfold processBlock
  split
  · next next hn =>
    rw [hn] at acted
    apply acted.trans
    apply processEach_keeps (R := Uncharged) (fun _ => .refl) (fun _ _ _ => .trans)
    intro self validator
    apply uncharged_applied
    intro next hb
    rw [bond_of_bondable (bondable_of_bond hb)] at hb
    obtain rfl := Except.ok.inj hb
    rfl
  · exact acted

/-- Without new validators, only the staking actions of a block are processed. -/
theorem processBlock_of_unbonded {block : Block} (h : block.newBoundedValidators=[]) :
    self.processBlock block=processEach processAction block.stakingActions self := by
  unfold processBlock
  rw [h]
  rcases processEach processAction block.stakingActions self with ⟨fault|u,next⟩ <;> rfl

/-- Only depositors get an account from a block. -/
theorem accounts_processEach {v : ValidatorPublicKey}
    (hv : (processEach processAction actions self).2.fees.balances.contains v=true) :
    self.fees.balances.contains v=true ∨ v ∈ depositors actions := by
  induction actions generalizing self with
  | nil => exact Or.inl hv
  | cons entry actions ih =>
    have split_depositors : depositors (entry::actions)=depositors [entry]++depositors actions := by
      rw [depositors,← List.singleton_append,List.filterMap_append]
      rfl
    rw [split_depositors,List.mem_append,← or_assoc]
    have first := (@processAction_fees self entry).2 v
    simp only [processEach] at hv
    split at hv
    · next next hn =>
      rw [hn] at first
      exact (ih hv).imp first id
    · exact Or.inl (first hv)

theorem account_of_depositor {v : ValidatorPublicKey}
    (h : (processEach processAction actions self).1=.ok ()) (hv : v ∈ depositors actions) :
    (processEach processAction actions self).2.fees.balances.contains v=true := by
  induction actions generalizing self with
  | nil => cases hv
  | cons entry actions ih =>
    simp only [processEach] at h ⊢
    split at h
    · next next hn =>
      obtain ⟨staker,amount|validator|claim|⟨holder,amount⟩⟩ := entry
      · exact ih h hv
      · exact ih h hv
      · exact ih h hv
      · obtain rfl|hv := List.mem_cons.mp hv
        · obtain rfl := congrArg Prod.snd hn
          apply uncharged_processEach.accounts
          exact Fees.contains_credit.mpr (Or.inr rfl)
        · exact ih h hv
    · next hn => exact (hn _ (Prod.ext h rfl)).elim

theorem processEach_append {α : Type} {process : Staking → α → Outcome Unit × Staking}
    {entries others : List α} {next : Staking}
    (h : processEach process entries self=(.ok (),next)) :
    processEach process (entries++others) self=processEach process others next := by
  induction entries generalizing self with
  | nil =>
    obtain rfl : self=next := congrArg Prod.snd h
    rfl
  | cons a entries ih =>
    simp only [processEach,List.cons_append] at h ⊢
    split at h
    · exact ih h
    · next hn => exact (hn _ h).elim

theorem processEach_of_append {α : Type} {process : Staking → α → Outcome Unit × Staking}
    {entries others : List α} (h : (processEach process (entries++others) self).1=.ok ()) :
    (processEach process entries self).1=.ok () := by
  induction entries generalizing self with
  | nil => rfl
  | cons a entries ih =>
    simp only [processEach,List.cons_append] at h ⊢
    split at h
    · exact ih h
    · exact h

end Staking

end TruthSeeker
