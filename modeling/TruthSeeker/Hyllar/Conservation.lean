import TruthSeeker.Framework.Maps
import TruthSeeker.Framework.Trace
import TruthSeeker.Hyllar.Contract

namespace TruthSeeker.Hyllar

open Maps Sdk

/-- A caller with its action. -/
abbrev Event := Identity × HyllarAction

def balance (self : Hyllar) (account : String) : Nat := (self.balances.getD account 0).toNat

def remaining (self : Hyllar) (owner spender : String) : Nat := (self.allowance owner spender).toNat

def sumOfBalances (self : Hyllar) : Nat := total BitVec.toNat self.balances

/-- What an action takes from an account. -/
def debit (account : String) : Event → Nat
  | (caller,.transfer _ amount) => if caller=account then amount.toNat else 0
  | (_,.transferFrom owner _ amount) => if owner=account then amount.toNat else 0
  | _ => 0

/-- What an action adds to an account. -/
def credit (account : String) : Event → Nat
  | (_,.transfer recipient amount) => if recipient=account then amount.toNat else 0
  | (_,.transferFrom _ recipient amount) => if recipient=account then amount.toNat else 0
  | _ => 0

/-- The allowance that an action sets. -/
def grant (owner spender : String) : Event → Option Nat
  | (caller,.approve recipient amount) =>
      if (caller,recipient)=(owner,spender) then some amount.toNat else none
  | _ => none

/-- The allowance that an action uses. -/
def spent (owner spender : String) : Event → Nat
  | (caller,.transferFrom payer _ amount) =>
      if (payer,caller)=(owner,spender) then amount.toNat else 0
  | _ => 0

/-- The last amount approved, and what was moved on it since. -/
def spending (owner spender : String) (events : List Event) : Nat × Nat :=
  events.foldl (fun acc event => match grant owner spender event with
    | some amount => (amount,0)
    | none => (acc.1,acc.2+spent owner spender event)) (0,0)

/-- The state after an action, in integers: no sum or difference wraps. -/
structure Exact (token next : Hyllar) (event : Event) : Prop where
  covered : ∀ account,debit account event≤token.balance account
  balances : ∀ account,next.balance account+debit account event=
    token.balance account+credit account event
  allowances : ∀ owner spender,next.remaining owner spender+spent owner spender event=
    (grant owner spender event).getD (token.remaining owner spender)
  totalSupply : next.totalSupply=token.totalSupply

/-- What a successful action leaves. -/
def perform (self : Hyllar) : Event → Hyllar
  | (caller,.transfer recipient amount) => self.move caller recipient amount
  | (caller,.transferFrom owner recipient amount) =>
      { self.move owner recipient amount with
        allowances := self.allowances.insert (owner,caller) (self.allowance owner caller-amount) }
  | (caller,.approve spender amount) =>
      { self with allowances := self.allowances.insert (caller,spender) amount }
  | _ => self

def Permitted (self : Hyllar) (event : Event) : Prop :=
  (∀ account,debit account event≤ self.balance account) ∧
  ∀ owner spender,spent owner spender event≤ self.remaining owner spender

def accepted (self : Hyllar) (calldata : Calldata) : List Event :=
  match parseCalldata HyllarAction calldata,(self.execute calldata).1 with
  | .ok (action,executionCtx),.ok _ => [(executionCtx.caller,action)]
  | _,_ => []

def call (self : Hyllar) (calldata : Calldata) : Hyllar := (self.execute calldata).2

def run (faucetId : String) (calldatas : List Calldata) : Hyllar :=
  calldatas.foldl call (custom faucetId)

/-- The actions of a run that succeeded. -/
def history (faucetId : String) (calldatas : List Calldata) : List Event :=
  Trace.outputs call accepted (custom faucetId) calldatas

variable {self : Hyllar} {event : Event}

section Updates
variable (self) (account other : String) (change : U128 → U128)

theorem balance_eq : self.balance account=self.balances[account]?.elim 0 BitVec.toNat := by
  rw [balance,Std.ExtTreeMap.getD_eq_getD_getElem?]
  cases self.balances[account]? <;> rfl

theorem balance_adjust : (self.adjust account change).balance other=
    if account=other then (change (self.balances.getD account 0)).toNat
    else self.balance other := by
  rw [balance,adjust,Std.ExtTreeMap.getD_insert,balance]
  simp only [Std.LawfulEqOrd.compare_eq_iff_eq]
  split_ifs <;> rfl

theorem sumOfBalances_adjust : (self.adjust account change).sumOfBalances+self.balance account=
    self.sumOfBalances+(change (self.balances.getD account 0)).toNat := by
  rw [balance_eq]
  exact total_insert BitVec.toNat self.balances account _

theorem balance_le_sum : self.balance account≤ self.sumOfBalances := by
  have cleared := sumOfBalances_adjust self account fun _ => 0
  have zero : (0 : U128).toNat=0 := rfl
  omega

end Updates

/-- Two updates in a row are exact even where the two accounts are one. -/
theorem move_exact (recipient : String) {sender : String} {amount : U128}
    (hb : self.sumOfBalances<2^128) (hc : amount.toNat≤ self.balance sender) :
    (self.move sender recipient amount).sumOfBalances=self.sumOfBalances ∧
    ∀ account,(self.move sender recipient amount).balance account+
        (if sender=account then amount.toNat else 0)=
      self.balance account+(if recipient=account then amount.toNat else 0) := by
  let taken := self.adjust sender (·-amount)
  have hs : (self.balances.getD sender 0-amount).toNat=self.balance sender-amount.toNat :=
    BitVec.toNat_sub_of_le hc
  have debited := sumOfBalances_adjust self sender (·-amount)
  have room := balance_le_sum taken recipient
  have taken_sum : taken.sumOfBalances+amount.toNat=self.sumOfBalances := by
    have covered := balance_le_sum self sender
    change taken.sumOfBalances+_=_+(self.balances.getD sender 0-amount).toNat at debited
    omega
  have hr : (taken.balances.getD recipient 0+amount).toNat=
      taken.balance recipient+amount.toNat := by
    rw [BitVec.toNat_add,← balance,Nat.mod_eq_of_lt]
    omega
  have credited := sumOfBalances_adjust taken recipient (·+amount)
  refine ⟨?_,fun account => ?_⟩
  · change (taken.adjust recipient (·+amount)).sumOfBalances=_
    omega
  · have after := balance_adjust taken recipient account (·+amount)
    have before := balance_adjust self sender account (·-amount)
    change taken.balance account=_ at before
    change (self.move sender recipient amount).balance account=_ at after
    rw [hr] at after
    rw [hs] at before
    by_cases payer : sender=account
    · subst payer
      by_cases payee : recipient=sender
      · subst payee
        simp only [if_true] at before after ⊢
        omega
      · simp only [payee,if_false,if_true] at before after ⊢
        omega
    · by_cases payee : recipient=account
      · subst payee
        simp only [payer,if_false,if_true] at before after ⊢
        omega
      · simp only [payer,payee,if_false] at before after ⊢
        omega

theorem remaining_insert (self : Hyllar) (owner spender owner' spender' : String) (amount : U128)
    (balances : Std.ExtTreeMap String U128) :
    (Hyllar.mk self.totalSupply balances
        (self.allowances.insert (owner,spender) amount)).remaining owner' spender'=
      if (owner,spender)=(owner',spender') then amount.toNat
      else self.remaining owner' spender' := by
  rw [remaining,allowance,Std.ExtTreeMap.getD_insert]
  simp only [Std.LawfulEqOrd.compare_eq_iff_eq]
  split_ifs <;> rfl

/-- An action that fails changes nothing. One that succeeds is covered by the balance and
the allowance it uses. -/
theorem executeTokenAction_cases (self : Hyllar) (action : HyllarAction) (executionCtx : ExecutionContext) :
    (∃ e,self.executeTokenAction action executionCtx=(.error e,self)) ∨
    (∃ text,self.executeTokenAction action executionCtx=
        (.ok text,self.perform (executionCtx.caller,action))) ∧
      self.Permitted (executionCtx.caller,action) := by
  have found {account : String} {balance : U128} (h : self.balanceOf account=.ok balance) :
      self.balance account=balance.toNat := by
    rw [balanceOf] at h
    split at h
    · rename_i stored
      obtain rfl := Except.ok.inj h
      rw [balance_eq,stored]
      rfl
    · cases h
  have zero_le (n : Nat) : 0≤n := Nat.zero_le n
  cases action with
  | totalSupply => exact .inr ⟨⟨_,rfl⟩,fun _ => zero_le _,fun _ _ => zero_le _⟩
  | allowance owner spender => exact .inr ⟨⟨_,rfl⟩,fun _ => zero_le _,fun _ _ => zero_le _⟩
  | approve spender amount => exact .inr ⟨⟨_,rfl⟩,fun _ => zero_le _,fun _ _ => zero_le _⟩
  | balanceOf account =>
    cases hb : self.balanceOf account with
    | error e => exact .inl ⟨e,by simp [executeTokenAction,hb,Except.map]⟩
    | ok balance =>
      refine .inr ⟨⟨_,by simp only [executeTokenAction,hb,Except.map]; rfl⟩,
        fun _ => zero_le _,fun _ _ => zero_le _⟩
  | transfer recipient amount =>
    cases hb : self.balanceOf executionCtx.caller with
    | error e => exact .inl ⟨e,by simp [executeTokenAction,transfer,hb,Except.map]⟩
    | ok senderBalance =>
      by_cases short : senderBalance<amount
      · exact .inl ⟨_,by simp only [executeTokenAction,transfer,hb,short,if_true,Except.map]; rfl⟩
      · refine .inr ⟨⟨_,by simp only [executeTokenAction,transfer,hb,short,if_false,Except.map]; rfl⟩,
          fun account => ?_,fun _ _ => zero_le _⟩
        have enough : amount.toNat≤ senderBalance.toNat := Nat.not_lt.mp short
        rw [debit]
        split_ifs with here
        · rw [← here,found hb]
          exact enough
        · exact zero_le _
  | transferFrom owner recipient amount =>
    cases hb : self.balanceOf owner with
    | error e => exact .inl ⟨e,by simp [executeTokenAction,transferFrom,hb,Except.map]⟩
    | ok senderBalance =>
      by_cases beyond : self.allowance owner executionCtx.caller<amount
      · exact .inl ⟨_,by
          simp only [executeTokenAction,transferFrom,hb,beyond,if_true,Except.map]; rfl⟩
      · by_cases short : senderBalance<amount
        · exact .inl ⟨_,by
            simp only [executeTokenAction,transferFrom,hb,beyond,short,if_true,if_false,Except.map]
            rfl⟩
        · refine .inr ⟨⟨_,by
            simp only [executeTokenAction,transferFrom,hb,beyond,short,if_false,Except.map]
            rfl⟩,fun account => ?_,fun payer spender => ?_⟩
          · have enough : amount.toNat≤ senderBalance.toNat := Nat.not_lt.mp short
            rw [debit]
            split_ifs with here
            · rw [← here,found hb]
              exact enough
            · exact zero_le _
          · rw [spent]
            split_ifs with here
            · obtain ⟨rfl,rfl⟩ := Prod.mk.inj here
              exact Nat.not_lt.mp beyond
            · exact zero_le _

theorem execute_cases (self : Hyllar) (calldata : Calldata) :
    (∃ fault,self.execute calldata=(.error fault,self) ∧ self.accepted calldata=[]) ∨
    ∃ out event,self.execute calldata=(.ok out,self.perform event) ∧
      self.accepted calldata=[event] ∧ self.Permitted event := by
  cases parsed : parseCalldata HyllarAction calldata with
  | error fault =>
    have stopped : self.execute calldata=(.error fault,self) := by rw [execute,parsed]
    exact .inl ⟨fault,stopped,by rw [accepted,parsed]⟩
  | ok action =>
    obtain ⟨action,executionCtx⟩ := action
    obtain ⟨e,failed⟩|⟨⟨text,done⟩,permitted⟩ := executeTokenAction_cases self action
      executionCtx
    · have stopped : self.execute calldata=(.error (.err e),self) := by
        simp only [execute,parsed,failed,Except.map,Outcome.fromExcept]
      exact .inl ⟨_,stopped,by rw [accepted,parsed,stopped]⟩
    · have went : self.execute calldata=(.ok (utf8 text,executionCtx,[]),
          self.perform (executionCtx.caller,action)) := by
        simp only [execute,parsed,done,Except.map,Outcome.fromExcept]
      exact .inr ⟨_,_,went,by rw [accepted,parsed,went],permitted⟩

structure Conserved (token : Hyllar) : Prop where
  totalSupply : token.totalSupply=TOTAL_SUPPLY
  balances : token.sumOfBalances=token.totalSupply.toNat

theorem conserved_custom (faucetId : String) : (custom faucetId).Conserved where
  totalSupply := rfl
  balances := by
    have funded := total_insert BitVec.toNat (∅ : Std.ExtTreeMap String U128) faucetId TOTAL_SUPPLY
    have none : (∅ : Std.ExtTreeMap String U128)[faucetId]?=none :=
      Std.ExtTreeMap.getElem?_empty
    rw [none,total_empty] at funded
    rw [Option.elim_none,Nat.add_zero,Nat.zero_add] at funded
    exact funded

theorem exact_perform (hs : self.Conserved) (hp : self.Permitted event) :
    Exact self (self.perform event) event ∧ (self.perform event).Conserved := by
  have small : self.sumOfBalances<2^128 := by
    rw [hs.balances]
    exact BitVec.isLt _
  obtain ⟨caller,action⟩ := event
  have idle (hd : ∀ account,debit account (caller,action)=0)
      (hc : ∀ account,credit account (caller,action)=0) (account : String) :
      self.balance account+debit account (caller,action)=
        self.balance account+credit account (caller,action) := by
    rw [hd,hc]
  cases action with
  | totalSupply =>
    exact ⟨⟨hp.1,idle (fun _ => rfl) (fun _ => rfl),fun _ _ => rfl,rfl⟩,hs⟩
  | balanceOf account =>
    exact ⟨⟨hp.1,idle (fun _ => rfl) (fun _ => rfl),fun _ _ => rfl,rfl⟩,hs⟩
  | allowance owner spender =>
    exact ⟨⟨hp.1,idle (fun _ => rfl) (fun _ => rfl),fun _ _ => rfl,rfl⟩,hs⟩
  | approve spender amount =>
    refine ⟨⟨hp.1,idle (fun _ => rfl) (fun _ => rfl),fun payer other => ?_,rfl⟩,
      ⟨hs.totalSupply,hs.balances⟩⟩
    have set := remaining_insert self caller spender payer other amount self.balances
    change (Hyllar.mk _ _ _).remaining payer other+0=_
    rw [set,grant,Nat.add_zero]
    split_ifs <;> rfl
  | transfer recipient amount =>
    have covered : amount.toNat≤ self.balance caller := by simpa [debit] using hp.1 caller
    obtain ⟨sum,balances⟩ := move_exact recipient small covered
    exact ⟨⟨hp.1,balances,fun _ _ => rfl,rfl⟩,⟨hs.totalSupply,sum.trans hs.balances⟩⟩
  | transferFrom owner recipient amount =>
    have covered : amount.toNat≤ self.balance owner := by simpa [debit] using hp.1 owner
    have allowed : amount.toNat≤ self.remaining owner caller := by
      simpa [spent] using hp.2 owner caller
    obtain ⟨sum,balances⟩ := move_exact recipient small covered
    refine ⟨⟨hp.1,balances,fun payer other => ?_,rfl⟩,⟨hs.totalSupply,sum.trans hs.balances⟩⟩
    have set := remaining_insert self owner caller payer other
      (self.allowance owner caller-amount) (self.move owner recipient amount).balances
    have used : (self.allowance owner caller-amount).toNat=
        self.remaining owner caller-amount.toNat := BitVec.toNat_sub_of_le allowed
    change _+_=self.remaining payer other
    rw [used] at set
    change ((self.perform (caller,.transferFrom owner recipient amount)).remaining payer other)=_
      at set
    rw [spent]
    split_ifs at set ⊢ with here
    · obtain ⟨rfl,rfl⟩ := Prod.mk.inj here
      omega
    · omega

theorem spending_append (owner spender : String) (past : List Event) (event : Event) :
    spending owner spender (past++[event])=match grant owner spender event with
      | some amount => (amount,0)
      | none => ((spending owner spender past).1,
          (spending owner spender past).2+spent owner spender event) := by
  rw [spending,List.foldl_append]
  rfl

/-- What was moved on an approval and what is left of it make up the approval. -/
def Metered (self : Hyllar) (past : List Event) : Prop := ∀ owner spender,
  (spending owner spender past).2+self.remaining owner spender=(spending owner spender past).1

theorem Metered.perform {past : List Event} (hm : self.Metered past)
    (he : Exact self (self.perform event) event) : (self.perform event).Metered (past++[event]) := by
  intro owner spender
  have before := hm owner spender
  have step := he.allowances owner spender
  rw [spending_append]
  cases granted : grant owner spender event with
  | none =>
    rw [granted,Option.getD_none] at step
    dsimp only
    omega
  | some amount =>
    have unused : spent owner spender event=0 := by
      obtain ⟨caller,action⟩ := event
      cases action with
      | approve other amount => rfl
      | _ => cases granted
    rw [granted,Option.getD_some,unused] at step
    dsimp only
    omega

theorem run_invariant (faucetId : String) (calldatas : List Calldata) :
    (run faucetId calldatas).Conserved ∧
    (run faucetId calldatas).Metered (history faucetId calldatas) := by
  have start : (custom faucetId).Conserved ∧ (custom faucetId).Metered [] := by
    refine ⟨conserved_custom faucetId,fun owner spender => ?_⟩
    have none : (∅ : Std.ExtTreeMap (String × String) U128).getD (owner,spender) 0=0 :=
      Std.ExtTreeMap.getD_empty
    change 0+((∅ : Std.ExtTreeMap (String × String) U128).getD (owner,spender) 0).toNat=0
    rw [none]
    rfl
  refine Trace.foldl_of_past (I := fun past self => Conserved self ∧ Metered self past) start ?_
  rintro past self calldata _ ⟨conserved,metered⟩
  obtain ⟨fault,stopped,none⟩|⟨out,event,went,one,permitted⟩ := execute_cases self calldata
  · rw [call,stopped,none,List.append_nil]
    exact ⟨conserved,metered⟩
  · obtain ⟨exactly,next⟩ := exact_perform conserved permitted
    rw [call,went,one]
    exact ⟨next,metered.perform exactly⟩

/-- Hyllar keeps its supply over every run: the balances add up to it, no update wraps, no
spender moves more than was last approved, and a failure changes nothing. -/
theorem run_conserves (faucetId : String) (calldatas : List Calldata) :
    (run faucetId calldatas).totalSupply=TOTAL_SUPPLY ∧
    (run faucetId calldatas).sumOfBalances=(run faucetId calldatas).totalSupply.toNat ∧
    (∀ owner spender,(spending owner spender (history faucetId calldatas)).2≤
      (spending owner spender (history faucetId calldatas)).1) ∧
    ∀ calldata,
      (∀ fault,((run faucetId calldatas).execute calldata).1=.error fault →
        ((run faucetId calldatas).execute calldata).2=run faucetId calldatas) ∧
      ∀ out,((run faucetId calldatas).execute calldata).1=.ok out →
        ∃ event,(run faucetId calldatas).accepted calldata=[event] ∧
          Exact (run faucetId calldatas) ((run faucetId calldatas).execute calldata).2 event := by
  obtain ⟨conserved,metered⟩ := run_invariant faucetId calldatas
  refine ⟨conserved.totalSupply,conserved.balances,fun owner spender => ?_,fun calldata => ?_⟩
  · have whole := metered owner spender
    omega
  · obtain ⟨fault,stopped,_⟩|⟨out,event,went,one,permitted⟩ :=
      execute_cases (run faucetId calldatas) calldata
    · rw [stopped]
      refine ⟨fun _ _ => rfl,fun _ succeeded => ?_⟩
      cases succeeded
    · rw [went]
      refine ⟨fun _ failed => ?_,fun _ _ => ⟨event,one,(exact_perform conserved permitted).1⟩⟩
      cases failed

end TruthSeeker.Hyllar
