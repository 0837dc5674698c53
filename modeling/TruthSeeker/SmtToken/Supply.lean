import TruthSeeker.Framework.Maps
import TruthSeeker.SmtToken.Executor

namespace TruthSeeker.SmtToken

open Borsh Maps Sdk SparseMerkle

/-- No account has the digest that stands for an empty leaf. -/
def LeafNonzero (sha256 : Bytes → H256) : Prop :=
  ∀ (a : Account) bs,Borsh.ser a=some bs → sha256 bs≠ByteVec.zero 32

theorem LeafNonzero.toH256_ne_zero {sha256 : Bytes → H256} (hz : LeafNonzero sha256) {a : Account}
    (hb : a.balance≠0) : a.toH256 sha256≠.ok (ByteVec.zero 32) := by
  intro h
  obtain ⟨bs,hs,he⟩ := (Account.toH256_funded hb).mp h
  exact hz a bs hs he

namespace AccountSMT

variable {sha256 : Bytes → H256}

/-- The sum of all balances. -/
def sumOfBalances (T : AccountSMT sha256) : Nat :=
  total (fun a : Account => a.balance.toNat) T.tree.values

/-- What is stored under a key. -/
def balanceAt (T : AccountSMT sha256) (key : H256) : Nat :=
  T.tree.values[key]?.elim 0 fun a => a.balance.toNat

def balance (T : AccountSMT sha256) (name : Identity) : Nat := (T.committed name).balance.toNat

/-- What the owner lets the spender take. -/
def remaining (T : AccountSMT sha256) (owner spender : Identity) : Nat :=
  ((T.committed owner).allowance spender).toNat

section Updates
variable {T fresh : AccountSMT sha256} {a : Account} {key other : H256}

theorem balanceAt_computeKey (T : AccountSMT sha256) (name : Identity) :
    T.balanceAt (Account.computeKey sha256 name)=T.balance name := by
  unfold balanceAt balance committed
  cases T.tree.values[Account.computeKey sha256 name]? with
  | none => rfl
  | some a => rfl

theorem balanceAt_update (hz : LeafNonzero sha256) (h : T.update a=some fresh) (key : H256) :
    fresh.balanceAt key=if key=a.getKey sha256 then a.balance.toNat else T.balanceAt key := by
  have hu := update_eq_some.mp h
  obtain ⟨l,hl,_⟩ := Store.update_eq_some.mp hu
  unfold balanceAt
  split_ifs with hk
  · subst hk
    rw [Store.getElem?_update_self hu hl]
    split_ifs with hzero
    · by_contra funded
      have hb : a.balance≠0 := by
        intro hb
        exact funded (by simp [hb])
      refine hz.toH256_ne_zero hb ?_
      obtain ⟨m,hm,_⟩ := leaf_update h
      rw [hm] at hl ⊢
      rw [← hzero]
      exact congrArg Except.ok (Option.some.inj hl)
    · rfl
  · rw [Store.getElem?_update_of_ne hu hk]

theorem sumOfBalances_update (hz : LeafNonzero sha256) (h : T.update a=some fresh) :
    fresh.sumOfBalances+T.balanceAt (a.getKey sha256)=T.sumOfBalances+a.balance.toNat := by
  obtain ⟨l,hl,hv⟩ := Store.update_eq_some.mp (update_eq_some.mp h)
  unfold sumOfBalances balanceAt
  rw [hv]
  split_ifs with hzero
  · have empty : a.balance=0 := by
      by_contra hb
      refine hz.toH256_ne_zero hb ?_
      obtain ⟨m,hm,_⟩ := leaf_update h
      rw [hm] at hl ⊢
      rw [← hzero]
      exact congrArg Except.ok (Option.some.inj hl)
    rw [total_erase,empty]
    rfl
  · exact total_insert _ _ _ _

/-- Two accounts hold no more than all. -/
theorem balanceAt_add_le (T : AccountSMT sha256) (h : key≠other) :
    T.balanceAt key+T.balanceAt other≤T.sumOfBalances := by
  have first := total_erase (fun a : Account => a.balance.toNat) T.tree.values key
  have second := total_erase (fun a : Account => a.balance.toNat) (T.tree.values.erase key) other
  have kept : (T.tree.values.erase key)[other]?=T.tree.values[other]? := by
    rw [Std.ExtTreeMap.getElem?_erase,if_neg]
    exact fun same => h (Std.LawfulEqOrd.eq_of_compare same)
  rw [kept] at second
  unfold balanceAt sumOfBalances
  omega

theorem getAccount_update_of_ne {name : Identity} (h : T.update a=some fresh)
    (hn : Account.computeKey sha256 name≠a.getKey sha256) :
    fresh.getAccount name=T.getAccount name :=
  Store.getElem?_update_of_ne (update_eq_some.mp h) hn

theorem committed_update_of_ne {name : Identity} (h : T.update a=some fresh)
    (hn : Account.computeKey sha256 name≠a.getKey sha256) :
    fresh.committed name=T.committed name := by
  rw [← getD_getAccount,← getD_getAccount,getAccount_update_of_ne h hn]

/-- The written account is there, unless it is empty. -/
theorem committed_update_self {name : Identity} (h : T.update a=some fresh)
    (hn : a.getKey sha256=Account.computeKey sha256 name) :
    fresh.committed name=a ∨ fresh.committed name=Account.new name 0 := by
  have hu := update_eq_some.mp h
  obtain ⟨l,hl,_⟩ := Store.update_eq_some.mp hu
  have found := Store.getElem?_update_self hu hl
  rw [hn] at found
  unfold committed
  rw [found]
  split_ifs
  · exact Or.inr rfl
  · exact Or.inl rfl

end Updates

section Steps
variable {T fresh : AccountSMT sha256} {action : SmtTokenAction} {amount : U128}

theorem toNat_debit {a : Account} (h : amount≤a.balance) :
    (a.debit amount).balance.toNat+amount.toNat=a.balance.toNat := by
  show (a.balance-amount).toNat+amount.toNat=a.balance.toNat
  bv_omega

theorem toNat_credit {a : Account} (h : a.balance.toNat+amount.toNat<2^128) :
    (a.credit amount).balance.toNat=a.balance.toNat+amount.toNat := by
  show (a.balance+amount).toNat=a.balance.toNat+amount.toNat
  bv_omega

/-- Two writes that move an amount between accounts of different keys. -/
theorem sumOfBalances_transfer (hz : LeafNonzero sha256) {sender recipient : Identity}
    {a b x y : Account} (hk : Account.computeKey sha256 sender≠Account.computeKey sha256 recipient)
    (ha : T.committed sender=a) (hb : T.committed recipient=b)
    (hx : x.getKey sha256=Account.computeKey sha256 sender)
    (hy : y.getKey sha256=Account.computeKey sha256 recipient)
    (moved : x.balance.toNat+y.balance.toNat=a.balance.toNat+b.balance.toNat)
    (h : T.updateAll [x,y]=some fresh) : fresh.sumOfBalances=T.sumOfBalances := by
  obtain ⟨mid,hm,h⟩ := Option.bind_eq_some_iff.mp h
  obtain ⟨last,hl,h⟩ := Option.bind_eq_some_iff.mp h
  obtain rfl := Option.some.inj h
  have first := sumOfBalances_update hz hm
  have second := sumOfBalances_update hz hl
  have between := balanceAt_update hz hm (y.getKey sha256)
  rw [hx,balanceAt_computeKey] at first
  rw [hx,hy,if_neg hk.symm,T.balanceAt_computeKey] at between
  rw [hy,between] at second
  unfold balance at first second
  rw [ha] at first
  rw [hb] at second
  omega

/-- Every action keeps the sum of the balances. -/
theorem sumOfBalances_innerHandle (hz : LeafNonzero sha256)
    (hn : Set.InjOn (Account.computeKey sha256) {name | name∈action.names}) {output : String}
    (h : T.innerHandle action=.ok (output,fresh)) : fresh.sumOfBalances=T.sumOfBalances := by
  obtain ⟨changes,hw,hu⟩ := innerHandle_eq_ok.mp ⟨output,h⟩
  have apart {first second : Identity} (hf : first∈action.names) (hs : second∈action.names)
      (hne : first≠second) : Account.computeKey sha256 first≠Account.computeKey sha256 second :=
    fun hk => hne (hn hf hs hk)
  cases action with
  | transfer sender recipient amount =>
    obtain ⟨a,ha,hw⟩ := Option.bind_eq_some_iff.mp hw
    split_ifs at hw with hsr enough
    · obtain rfl := Option.some.inj hw
      rw [← Option.some.inj hu]
    · obtain rfl := Option.some.inj hw
      have debited := toNat_debit enough.1
      have credited := toNat_credit enough.2
      have payer : (a.debit amount).getKey sha256=_ := T.keyed _ a ha
      have payee : ((T.committed recipient).credit amount).getKey sha256=_ :=
        T.committed_getKey recipient
      refine sumOfBalances_transfer hz (apart (by simp [SmtTokenAction.names])
        (by simp [SmtTokenAction.names]) hsr) (committed_of_getAccount ha) rfl payer payee ?_ hu
      omega
  | transferFrom owner spender recipient amount =>
    obtain ⟨a,ha,hw⟩ := Option.bind_eq_some_iff.mp hw
    split_ifs at hw with hor enough
    · obtain rfl := Option.some.inj hw
      rw [← Option.some.inj hu]
    · obtain rfl := Option.some.inj hw
      have debited := toNat_debit
        (a := a.updateAllowances spender (a.allowance spender-amount)) enough.2.1
      have credited := toNat_credit enough.2.2
      have same : (a.updateAllowances spender (a.allowance spender-amount)).balance=a.balance :=
        rfl
      rw [same] at debited
      have payer : ((a.updateAllowances spender (a.allowance spender-amount)).debit
          amount).getKey sha256=_ := T.keyed _ a ha
      have payee : ((T.committed recipient).credit amount).getKey sha256=_ :=
        T.committed_getKey recipient
      refine sumOfBalances_transfer hz (apart (by simp [SmtTokenAction.names])
        (by simp [SmtTokenAction.names]) hor) (committed_of_getAccount ha) rfl payer payee ?_ hu
      omega
  | approve owner spender amount =>
    obtain ⟨a,ha,rfl⟩ := Option.map_eq_some_iff.mp hw
    obtain ⟨last,hl,h⟩ := Option.bind_eq_some_iff.mp hu
    obtain rfl := Option.some.inj h
    have written := sumOfBalances_update hz hl
    have hk : (a.updateAllowances spender amount).getKey sha256=_ := T.keyed _ a ha
    rw [hk,balanceAt_computeKey,balance,committed_of_getAccount ha] at written
    have same : (a.updateAllowances spender amount).balance=a.balance := rfl
    rw [same] at written
    omega

end Steps

end AccountSMT

/-- The allowance that an action sets. -/
def grant (owner spender : Identity) : SmtTokenAction → Option Nat
  | .approve payer other amount =>
      if (payer,other)=(owner,spender) then some amount.toNat else none
  | _ => none

/-- What an action moves on an allowance. A transfer to the owner moves nothing. -/
def spent (owner spender : Identity) : SmtTokenAction → Nat
  | .transferFrom payer other recipient amount =>
      if (payer,other)=(owner,spender) ∧ payer≠recipient then amount.toNat else 0
  | _ => 0

/-- The last amount approved, and what was moved on it since. -/
def spending (owner spender : Identity) (actions : List SmtTokenAction) : Nat × Nat :=
  actions.foldl (fun acc action => match grant owner spender action with
    | some amount => (amount,0)
    | none => (acc.1,acc.2+spent owner spender action)) (0,0)

theorem spending_append (owner spender : Identity) (past : List SmtTokenAction)
    (action : SmtTokenAction) : spending owner spender (past++[action])=
      match grant owner spender action with
      | some amount => (amount,0)
      | none => ((spending owner spender past).1,
          (spending owner spender past).2+spent owner spender action) := by
  rw [spending,List.foldl_append]
  rfl

namespace AccountSMT

variable {sha256 : Bytes → H256}

section Allowances
variable {T fresh mid : AccountSMT sha256} {a : Account} {names : Set Identity}
  {owner spender name : Identity} {action : SmtTokenAction}

theorem allowance_updateAllowances (a : Account) (spender other : Identity) (amount : U128) :
    (a.updateAllowances other amount).allowance spender=
      if other=spender then amount else a.allowance spender := by
  unfold Account.allowance Account.updateAllowances
  rw [Std.ExtTreeMap.getElem?_insert]
  simp only [Std.LawfulEqOrd.compare_eq_iff_eq]
  split_ifs <;> rfl

/-- The write of an account leaves no more than its allowances, and those of the others. An
account that is removed loses them. -/
theorem remaining_update (hn : Set.InjOn (Account.computeKey sha256) names) (ho : owner∈names)
    (hm : name∈names) (hk : a.getKey sha256=Account.computeKey sha256 name)
    (h : T.update a=some fresh) : fresh.remaining owner spender≤
      if name=owner then (a.allowance spender).toNat else T.remaining owner spender := by
  unfold remaining
  split_ifs with same
  · subst same
    obtain eq|eq := committed_update_self h hk
    · rw [eq]
    · rw [eq]
      exact Nat.zero_le _
  · rw [committed_update_of_ne h]
    rw [hk]
    exact fun eq => same (hn hm ho eq.symm)

/-- The writes of two accounts that had their allowances before. -/
theorem remaining_transfer (hn : Set.InjOn (Account.computeKey sha256) names)
    {sender recipient : Identity} {x y : Account} {limit : Nat} (ho : owner∈names)
    (hs : sender∈names) (hr : recipient∈names)
    (hx : x.getKey sha256=Account.computeKey sha256 sender)
    (hy : y.getKey sha256=Account.computeKey sha256 recipient)
    (payer : sender=owner → (x.allowance spender).toNat≤limit)
    (payee : recipient=owner → (y.allowance spender).toNat≤limit)
    (other : sender≠owner → recipient≠owner → T.remaining owner spender≤limit)
    (h : T.updateAll [x,y]=some fresh) : fresh.remaining owner spender≤limit := by
  obtain ⟨mid,hm,h⟩ := Option.bind_eq_some_iff.mp h
  obtain ⟨last,hl,h⟩ := Option.bind_eq_some_iff.mp h
  obtain rfl := Option.some.inj h
  have first : mid.remaining owner spender≤_ := remaining_update hn ho hs hx hm
  have second : last.remaining owner spender≤_ := remaining_update hn ho hr hy hl
  by_cases received : recipient=owner
  · rw [if_pos received] at second
    exact second.trans (payee received)
  · rw [if_neg received] at second
    by_cases paid : sender=owner
    · rw [if_pos paid] at first
      exact (second.trans first).trans (payer paid)
    · rw [if_neg paid] at first
      exact (second.trans first).trans (other paid received)

/-- An action leaves no more of an allowance than what it sets, or than what it does not move. -/
theorem remaining_innerHandle (hn : Set.InjOn (Account.computeKey sha256) names)
    (ho : owner∈names) (hm : ∀ name∈action.names,name∈names) {output : String}
    (h : T.innerHandle action=.ok (output,fresh)) :
    fresh.remaining owner spender+spent owner spender action≤
      (grant owner spender action).getD (T.remaining owner spender) := by
  obtain ⟨changes,hw,hu⟩ := innerHandle_eq_ok.mp ⟨output,h⟩
  have left {payer : Identity} {a : Account} (ha : T.getAccount payer=some a)
      (paid : payer=owner) : (a.allowance spender).toNat=T.remaining owner spender := by
    rw [← paid,remaining,committed_of_getAccount ha]
  cases action with
  | transfer sender recipient amount =>
    obtain ⟨a,ha,hw⟩ := Option.bind_eq_some_iff.mp hw
    split_ifs at hw with hsr enough
    · obtain rfl := Option.some.inj hw
      rw [← Option.some.inj hu]
      exact le_refl _
    · obtain rfl := Option.some.inj hw
      have payer : (a.debit amount).getKey sha256=_ := T.keyed _ a ha
      have payee : ((T.committed recipient).credit amount).getKey sha256=_ :=
        T.committed_getKey recipient
      refine remaining_transfer hn ho (hm sender (by simp [SmtTokenAction.names]))
        (hm recipient (by simp [SmtTokenAction.names])) payer payee ?_ ?_ ?_ hu
      · intro paid
        exact (left ha paid).le
      · intro received
        subst received
        exact le_refl _
      · intro _ _
        exact le_refl _
  | transferFrom payer other recipient amount =>
    obtain ⟨a,ha,hw⟩ := Option.bind_eq_some_iff.mp hw
    split_ifs at hw with hor enough
    · obtain rfl := Option.some.inj hw
      rw [← Option.some.inj hu]
      simp [spent,grant,hor]
    · obtain rfl := Option.some.inj hw
      have payerKey : ((a.updateAllowances other (a.allowance other-amount)).debit
          amount).getKey sha256=_ := T.keyed _ a ha
      have payeeKey : ((T.committed recipient).credit amount).getKey sha256=_ :=
        T.committed_getKey recipient
      have used : (a.allowance other-amount).toNat=(a.allowance other).toNat-amount.toNat :=
        BitVec.toNat_sub_of_le enough.1
      have covered : amount.toNat≤(a.allowance other).toNat := enough.1
      have moves : spent owner spender (.transferFrom payer other recipient amount)=
          if payer=owner ∧ other=spender then amount.toNat else 0 := by
        simp [spent,hor]
      have bound : spent owner spender (.transferFrom payer other recipient amount)≤
          T.remaining owner spender := by
        rw [moves]
        split_ifs with here
        · rw [← left ha here.1,← here.2]
          exact covered
        · exact Nat.zero_le _
      have kept : fresh.remaining owner spender≤T.remaining owner spender-
          spent owner spender (.transferFrom payer other recipient amount) := by
        refine remaining_transfer hn ho (hm payer (by simp [SmtTokenAction.names]))
          (hm recipient (by simp [SmtTokenAction.names])) payerKey payeeKey ?_ ?_ ?_ hu
        · intro paid
          show ((a.updateAllowances other (a.allowance other-amount)).allowance spender).toNat≤_
          rw [allowance_updateAllowances,moves,← left ha paid]
          by_cases same : other=spender
          · subst same
            simp only [paid,and_self,if_true]
            omega
          · simp [same]
        · intro received
          have apart : payer≠owner := fun paid => hor (paid.trans received.symm)
          rw [moves,if_neg fun here => apart here.1]
          subst received
          exact le_refl _
        · intro paid _
          rw [moves,if_neg fun here => paid here.1]
          exact le_refl _
      show _≤T.remaining owner spender
      omega
  | approve payer other amount =>
    obtain ⟨a,ha,rfl⟩ := Option.map_eq_some_iff.mp hw
    obtain ⟨last,hl,h⟩ := Option.bind_eq_some_iff.mp hu
    obtain rfl := Option.some.inj h
    have own : (a.updateAllowances other amount).getKey sha256=_ := T.keyed _ a ha
    have written : last.remaining owner spender≤_ :=
      remaining_update hn ho (hm payer (by simp [SmtTokenAction.names])) own hl
    show last.remaining owner spender+0≤_
    rw [Nat.add_zero]
    refine written.trans ?_
    rw [allowance_updateAllowances,grant]
    by_cases paid : payer=owner
    · rw [if_pos paid]
      by_cases same : other=spender
      · simp [paid,same]
      · simp [same,left ha paid]
    · simp [paid]

end Allowances
end AccountSMT
namespace AccountSMT

section Runs
variable {Proof : Type} (S : Scheme H256 H256 H256 Proof) {sha256 : Bytes → H256}
  (quote : String → String)

/-- The action of the calldata, if it succeeds. -/
def accepted (T : AccountSMT sha256) (calldata : Calldata) : List SmtTokenAction :=
  match parseCalldata SmtTokenAction calldata with
  | .ok (action,_) => if (T.innerHandle action).isOk then [action] else []
  | .error _ => []

/-- The accounts after a calldata. One that is not parsed is skipped. -/
def next (T : AccountSMT sha256) (calldata : Calldata) : Outcome (AccountSMT sha256) :=
  match T.handle S quote calldata with
  | .ok (_,fresh) => .ok fresh
  | .error (.err _) => .ok T
  | .error (.panic m) => Outcome.panic m

/-- The actions that succeeded and the accounts in the end. A panic ends the run. -/
def run (T : AccountSMT sha256) : List Calldata →
    Outcome (List SmtTokenAction × AccountSMT sha256)
  | [] => .ok ([],T)
  | calldata::rest => do
    let fresh ← T.next S quote calldata
    let (history,last) ← run fresh rest
    return (T.accepted calldata++history,last)

variable {S quote} {T fresh last : AccountSMT sha256} {calldata : Calldata}
  {calls : List Calldata} {history : List SmtTokenAction}

/-- A calldata is a successful action, or it changes nothing. -/
theorem next_cases (h : T.next S quote calldata=.ok fresh) :
    (∃ action ctx output,parseCalldata SmtTokenAction calldata=.ok (action,ctx) ∧
      T.innerHandle action=.ok (output,fresh) ∧ T.accepted calldata=[action]) ∨
    fresh=T ∧ T.accepted calldata=[] := by
  cases hp : parseCalldata SmtTokenAction calldata with
  | error e =>
    right
    have none : T.accepted calldata=[] := by simp only [accepted,hp]
    refine ⟨?_,none⟩
    cases e with
    | err m =>
      simp only [next,handle,hp,bind,Except.bind] at h
      exact (Except.ok.inj h).symm
    | panic m =>
      simp only [next,handle,hp,bind,Except.bind] at h
      cases h
  | ok parsed =>
    obtain ⟨action,ctx⟩ := parsed
    cases ha : T.innerHandle action with
    | ok p =>
      obtain ⟨output,after⟩ := p
      simp only [next,handle,hp,ha,Outcome.caught,bind,Except.bind,pure,Except.pure] at h
      left
      refine ⟨action,ctx,output,rfl,?_,?_⟩
      · rw [Except.ok.inj h] at ha
        exact ha
      · simp [accepted,hp,ha,Except.isOk,Except.toBool]
    | error e =>
      cases e with
      | err m =>
        simp only [next,handle,hp,ha,Outcome.caught,bind,Except.bind,pure,Except.pure] at h
        right
        refine ⟨(Except.ok.inj h).symm,?_⟩
        simp [accepted,hp,ha,Except.isOk,Except.toBool]
      | panic m =>
        simp only [next,handle,hp,ha,Outcome.caught,Outcome.panic,bind,Except.bind] at h
        cases h

/-- An invariant of the past actions and the accounts that every successful action keeps. -/
theorem run_of_past {I : List SmtTokenAction → AccountSMT sha256 → Prop}
    (past : List SmtTokenAction)
    (step : ∀ past T fresh action output,∀ calldata∈calls,∀ ctx,
      parseCalldata SmtTokenAction calldata=.ok (action,ctx) → I past T →
      T.innerHandle action=.ok (output,fresh) → I (past++[action]) fresh)
    (start : I past T) (h : T.run S quote calls=.ok (history,last)) : I (past++history) last := by
  induction calls generalizing past T history with
  | nil =>
    obtain ⟨rfl,rfl⟩ := Prod.mk.inj (Except.ok.inj h)
    rw [List.append_nil]
    exact start
  | cons calldata rest ih =>
    simp only [run,Outcome.bind_eq_ok,Outcome.pure_eq_ok,Prod.mk.injEq,Prod.exists] at h
    obtain ⟨fresh,hn,others,_,hr,rfl,rfl⟩ := h
    have steps := fun past T fresh action output call (hc : call∈rest) =>
      step past T fresh action output call (List.mem_cons_of_mem _ hc)
    obtain ⟨action,ctx,output,hp,ha,hacc⟩|⟨rfl,hacc⟩ := next_cases hn
    · have moved := step past T fresh action output calldata List.mem_cons_self ctx hp start ha
      rw [hacc,← List.append_assoc]
      exact ih _ steps moved hr
    · rw [hacc,List.nil_append]
      exact ih _ steps start hr

/-- The names in the actions of the calldata. -/
def Names (names : Set Identity) (calls : List Calldata) : Prop :=
  ∀ calldata∈calls,∀ action ctx,parseCalldata SmtTokenAction calldata=.ok (action,ctx) →
    ∀ name∈action.names,name∈names

section Genesis
variable {genesis : AccountSMT sha256}

theorem update_of_default (h : AccountSMT.default sha256=.ok genesis) :
    empty.update (Account.new FAUCET_ID TOTAL_SUPPLY)=some genesis :=
  Outcome.fromOption_eq_ok.mp h

theorem sumOfBalances_default (hz : LeafNonzero sha256)
    (h : AccountSMT.default sha256=.ok genesis) : genesis.sumOfBalances=TOTAL_SUPPLY.toNat := by
  have supplied := sumOfBalances_update hz (update_of_default h)
  have none : (empty : AccountSMT sha256).sumOfBalances=0 := rfl
  have zero : (empty : AccountSMT sha256).balanceAt
      ((Account.new FAUCET_ID TOTAL_SUPPLY).getKey sha256)=0 := by
    unfold balanceAt empty Store.empty
    simp
  rw [none,zero] at supplied
  simpa [Account.new] using supplied

/-- The faucet lets nobody spend. -/
theorem remaining_default (h : AccountSMT.default sha256=.ok genesis) (owner spender : Identity) :
    genesis.remaining owner spender=0 := by
  have hu := update_of_default h
  have nothing (name : Identity) (balance : U128) :
      ((Account.new name balance).allowance spender).toNat=0 := by
    unfold Account.allowance Account.new
    simp
  unfold remaining
  by_cases hk : Account.computeKey sha256 owner=
      (Account.new FAUCET_ID TOTAL_SUPPLY).getKey sha256
  · obtain eq|eq := committed_update_self hu hk.symm
    · rw [eq]
      exact nothing _ _
    · rw [eq]
      exact nothing _ _
  · rw [committed_update_of_ne hu hk]
    have absent : (empty : AccountSMT sha256).committed owner=Account.new owner 0 := by
      unfold committed empty Store.empty Account.new
      simp
    rw [absent]
    exact nothing _ _

end Genesis

theorem sumOfBalances_run (hz : LeafNonzero sha256) {names : Set Identity}
    (hn : Set.InjOn (Account.computeKey sha256) names) (hm : Names names calls)
    (h : T.run S quote calls=.ok (history,last)) : last.sumOfBalances=T.sumOfBalances := by
  refine run_of_past [] (I := fun _ t => t.sumOfBalances=T.sumOfBalances) ?_ rfl h
  intro past t fresh action output calldata hc ctx hp kept ha
  rw [sumOfBalances_innerHandle hz (hn.mono fun name member => hm calldata hc action ctx hp
    name member) ha]
  exact kept

theorem remaining_run {names : Set Identity} {owner spender : Identity}
    (hn : Set.InjOn (Account.computeKey sha256) names) (hm : Names names calls)
    (ho : owner∈names) (start : T.remaining owner spender=0)
    (h : T.run S quote calls=.ok (history,last)) :
    last.remaining owner spender+(spending owner spender history).2≤
      (spending owner spender history).1 := by
  have kept := run_of_past []
    (I := fun past t => t.remaining owner spender+(spending owner spender past).2≤
      (spending owner spender past).1) ?_ (by rw [start]; exact le_refl _) h
  · exact kept
  intro past t fresh action output calldata hc ctx hp ih ha
  have moved : fresh.remaining owner spender+spent owner spender action≤
      (grant owner spender action).getD (t.remaining owner spender) :=
    remaining_innerHandle hn ho (hm calldata hc action ctx hp) ha
  rw [spending_append]
  cases hg : grant owner spender action with
  | none =>
    rw [hg,Option.getD_none] at moved
    show fresh.remaining owner spender+((spending owner spender past).2+
      spent owner spender action)≤(spending owner spender past).1
    omega
  | some amount =>
    rw [hg,Option.getD_some] at moved
    show _+0≤amount
    omega

/-- Where all balances fit, a transfer fails for want of funds only. -/
theorem transfer_refused_iff {sender recipient : Identity} {amount : U128}
    (hk : Account.computeKey sha256 sender≠Account.computeKey sha256 recipient)
    (fits : T.sumOfBalances<2^128) :
    (∃ m,T.innerHandle (.transfer sender recipient amount)=.error (.err m)) ↔
      T.getAccount sender=none ∨ T.balance sender<amount.toNat := by
  have apart : sender≠recipient := fun same => hk (congrArg _ same)
  cases ha : T.getAccount sender with
  | none =>
    have refused : ∃ m,T.innerHandle (.transfer sender recipient amount)=.error (.err m) :=
      innerHandle_refused (by rw [written,ha]; rfl)
    exact ⟨fun _ => Or.inl rfl,fun _ => refused⟩
  | some a =>
    have held : T.balance sender=a.balance.toNat := by
      unfold balance
      rw [committed_of_getAccount ha]
    have both := T.balanceAt_add_le hk
    rw [balanceAt_computeKey,balanceAt_computeKey] at both
    have room : (T.committed recipient).balance.toNat=T.balance recipient := rfl
    have funds : amount≤a.balance ↔ amount.toNat≤a.balance.toNat := BitVec.le_def
    have hw : T.written (.transfer sender recipient amount)=if amount≤a.balance ∧
        (T.committed recipient).balance.toNat+amount.toNat<2^128 then
          some [a.debit amount,(T.committed recipient).credit amount] else none := by
      simp only [written,ha,Option.bind_some,if_neg apart]
    constructor
    · intro h
      obtain ⟨m,hm⟩ := h
      right
      by_contra enough
      have covered : amount≤a.balance ∧
          (T.committed recipient).balance.toNat+amount.toNat<2^128 :=
        ⟨funds.mpr (by omega),by omega⟩
      rw [if_pos covered] at hw
      exact innerHandle_ne_err hw hm
    · intro h
      refine innerHandle_refused ?_
      rw [hw,if_neg]
      intro enough
      obtain h|h := h
      · cases h
      · have enough := funds.mp enough.1
        omega

end Runs

end AccountSMT
/-- Whatever is called from the start, the balances add up to the supply, nobody spends more on
an allowance than what was approved last, and a transfer fails for want of funds only. -/
theorem supply_run {Proof : Type} {S : Scheme H256 H256 H256 Proof} {sha256 : Bytes → H256}
    {quote : String → String} {genesis last : AccountSMT sha256} {calls : List Calldata}
    {history : List SmtTokenAction} {names : Set Identity} (hz : LeafNonzero sha256)
    (hn : Set.InjOn (Account.computeKey sha256) names) (hm : AccountSMT.Names names calls)
    (start : AccountSMT.default sha256=.ok genesis)
    (h : genesis.run S quote calls=.ok (history,last)) :
    last.sumOfBalances=TOTAL_SUPPLY.toNat ∧
    (∀ owner∈names,∀ spender,
      last.remaining owner spender+(spending owner spender history).2≤
        (spending owner spender history).1) ∧
    ∀ sender∈names,∀ recipient∈names,sender≠recipient → ∀ amount,
      (∃ m,last.innerHandle (.transfer sender recipient amount)=.error (.err m)) ↔
        last.getAccount sender=none ∨ last.balance sender<amount.toNat := by
  have supply : last.sumOfBalances=TOTAL_SUPPLY.toNat := by
    rw [AccountSMT.sumOfBalances_run hz hn hm h]
    exact AccountSMT.sumOfBalances_default hz start
  refine ⟨supply,?_,?_⟩
  · intro owner ho spender
    exact AccountSMT.remaining_run hn hm ho (AccountSMT.remaining_default start owner spender) h
  · intro sender hs recipient hr apart amount
    have hk : Account.computeKey sha256 sender≠Account.computeKey sha256 recipient :=
      fun same => apart (hn hs hr same)
    apply AccountSMT.transfer_refused_iff hk
    rw [supply]
    decide

namespace TwoAccounts

def faucet : Account := Account.new FAUCET_ID TOTAL_SUPPLY
def approved : Account := faucet.updateAllowances "mallory@wallet" 5
def spent : Account := (faucet.debit 3).updateAllowances "mallory@wallet" 2
def alice : Account := ⟨"alice@wallet",3,∅⟩

def faucetKey : H256 :=
  ByteVec.ofNat 32 0x755e0c2d1946f389907b16476e9fe38b5d106bbd767562b23b0ddb8801732cf5
def aliceKey : H256 :=
  ByteVec.ofNat 32 0x02b6ecc227f84f7ac2143dd01058753403bb67582a71af72cceb94e82df5a446
def faucetLeaf : H256 :=
  ByteVec.ofNat 32 0x617d6e93075e68c99573e195c8387254488c37232c2beb086d092e35f7a70cb2
def approvedLeaf : H256 :=
  ByteVec.ofNat 32 0x58530dcf1fe69aae4349e6da632b4fb3eb158dfe9aa47b8ce375e9df8bc25ac3
def spentLeaf : H256 :=
  ByteVec.ofNat 32 0x0a1c49ee44c150278138714eca605a31a0ce31bfda9159a451e1c737eb947b7a
def aliceLeaf : H256 :=
  ByteVec.ofNat 32 0x53f9566c2adb1f414bc9780e909a68429ab655f87723cc077a3986bd54070e30
def faucetRoot : H256 :=
  ByteVec.ofNat 32 0xfee0b9f2d65c64e7cf9d206af0d16c6f86fcde6e56ef24c033fefaca83588de8
def approvedRoot : H256 :=
  ByteVec.ofNat 32 0x5ebbd188c778b4dd0990c21ef782b5b79b0d95966f32cfb81aa22e1de8b7d5b4
def spentRoot : H256 :=
  ByteVec.ofNat 32 0x5cf0aa2d18081975f7bd9aabbd591af7ec0b0928a5f0560bd518a7307e24b897

def digests : List (Bytes × H256) :=
  [(utf8 FAUCET_ID,faucetKey),(utf8 "alice@wallet",aliceKey),
    ((Borsh.ser faucet).getD [],faucetLeaf),((Borsh.ser approved).getD [],approvedLeaf),
    ((Borsh.ser spent).getD [],spentLeaf),((Borsh.ser alice).getD [],aliceLeaf)]

/-- SHA-256 at the byte strings of this run. -/
def sha256 (bs : Bytes) : H256 :=
  let digest := ByteVec.lookup digests bs
  if digest=ByteVec.zero 32 then ByteVec.ofNat 32 1 else digest

theorem leafNonzero : LeafNonzero sha256 := by
  intro a bs _
  unfold sha256
  intro h
  simp only at h
  split_ifs at h with hz
  · exact absurd h (by decide)
  · exact hz h

def rootOf (l m : H256) : H256 :=
  if l=faucetLeaf then faucetRoot else if l=approvedLeaf then approvedRoot
  else if l=spentLeaf ∧ m=aliceLeaf then spentRoot else ByteVec.zero 32

/-- The trees of these two accounts, with proofs for both of them. -/
def tree : Scheme H256 H256 H256 Unit where
  root leaf := rootOf (leaf faucetKey) (leaf aliceKey)
  computeRoot _ leaves :=
    match leaves with
    | [(k,l),(j,m)] =>
      if k=faucetKey ∧ j=aliceKey then .ok (rootOf l m) else .error "CorruptedProof"
    | _ => .error "IncorrectNumberOfLeaves"

def quote (s : String) : String := "\""++s++"\""

def spend : SmtTokenAction := .transferFrom FAUCET_ID "mallory@wallet" "alice@wallet" 3

def approval : SmtTokenAction := .approve FAUCET_ID "mallory@wallet" 5

/-- The allowance does not cover the last one. -/
def calls : List Calldata := [approval,spend,spend].map OneAccount.calldata

def callNames : List Identity :=
  calls.flatMap fun calldata => match parseCalldata SmtTokenAction calldata with
    | .ok (action,_) => action.names
    | .error _ => []

theorem names_calls : AccountSMT.Names {name | name∈callNames} calls := by
  intro calldata hc action ctx hp name hn
  refine List.mem_flatMap.mpr ⟨calldata,hc,?_⟩
  rw [hp]
  exact hn

theorem run_calls : ((AccountSMT.default sha256).bind fun genesis =>
    (genesis.run tree quote calls).map Prod.fst)=.ok [approval,spend] := by
  decide +kernel

end TwoAccounts

open TwoAccounts in
/-- The spender moved 3 of the 5 that the faucet approved. -/
theorem supply_run_spent : ∃ genesis last,AccountSMT.default sha256=.ok genesis ∧
    genesis.run tree quote calls=.ok ([approval,spend],last) ∧
    last.sumOfBalances=TOTAL_SUPPLY.toNat ∧
    last.remaining FAUCET_ID "mallory@wallet"+3≤5 := by
  have ran := run_calls
  obtain ⟨genesis,start,ran⟩ := Outcome.bind_eq_ok.mp ran
  cases h : genesis.run tree quote calls with
  | error e =>
    rw [h] at ran
    cases ran
  | ok p =>
    obtain ⟨history,last⟩ := p
    rw [h] at ran
    obtain rfl : history=[approval,spend] := Except.ok.inj ran
    have hn : Set.InjOn (Account.computeKey sha256) {name | name∈callNames} := by
      have apart : ∀ m∈callNames,∀ n∈callNames,
          Account.computeKey sha256 m=Account.computeKey sha256 n → m=n := by decide +kernel
      intro m hm n hn
      exact apart m hm n hn
    have kept := supply_run leafNonzero hn names_calls start h
    have member : FAUCET_ID∈callNames := by decide +kernel
    exact ⟨genesis,last,start,h,kept.1,kept.2.1 FAUCET_ID member "mallory@wallet"⟩

end TruthSeeker.SmtToken
