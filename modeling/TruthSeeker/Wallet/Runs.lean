import TruthSeeker.Framework.Trace
import TruthSeeker.Wallet.Agreement

namespace TruthSeeker.WalletClient.Wallet

open TruthSeeker.Wallet Bytes Borsh Sdk SparseMerkle

section Runs
variable {Proof : Type} (S : Scheme H256 H256 H256 Proof) {sha256 : Bytes → H256}
  (quote : String → String)

/-- The wallet after a blob. An error leaves it as it was. -/
def next (wallet : Wallet sha256) (calldata : Calldata) : Wallet sha256 :=
  match wallet.handle S quote calldata with
  | .ok (_,fresh) => fresh
  | .error _ => wallet

def run (wallet : Wallet sha256) (calldata : List Calldata) : Wallet sha256 :=
  calldata.foldl (next S quote) wallet

/-- The action is accepted for the account under this key. -/
def AcceptsAt (wallet : Wallet sha256) (key : H256) (calldata : Calldata)
    (action : WalletAction) : Prop :=
  ∃ ctx name output fresh,parseRawCalldata WalletAction calldata=.ok (action,ctx) ∧
    action.account?=some name ∧ AccountInfo.computeKey sha256 name=key ∧
    wallet.handle S quote calldata=.ok (output,fresh) ∧ output.success=true

variable {S quote} {wallet : Wallet sha256} {calldata : Calldata} {key : H256}

/-- A run through a blob goes on from the wallet after it. -/
theorem run_through (before after : List Calldata) (calldata : Calldata) :
    run S quote wallet (before++calldata::after)=
      run S quote (next S quote (run S quote wallet before) calldata) after := by
  simp [run]

theorem accountInfo_of_stored {name : String} {a : AccountInfo}
    (h : wallet.smt.values[AccountInfo.computeKey sha256 name]?=some a) :
    wallet.accountInfo name={ a with identity := name } := by
  simp [accountInfo,h]

/-- A blob has one action. -/
theorem AcceptsAt.action_eq {action other : WalletAction} {used : Wallet sha256} {k : H256}
    (h : AcceptsAt S quote wallet key calldata action)
    (ho : AcceptsAt S quote used k calldata other) : action=other := by
  obtain ⟨ctx,_,_,_,hp,_⟩ := h
  obtain ⟨_,_,_,_,hq,_⟩ := ho
  rw [hp] at hq
  exact (Prod.mk.inj (Except.ok.inj hq)).1

theorem next_of_ok {output : HyleOutput} {fresh : Wallet sha256}
    (h : wallet.handle S quote calldata=.ok (output,fresh)) :
    next S quote wallet calldata=fresh := by
  simp [next,h]

/-- An account after a write under its key is the written one. -/
theorem eq_of_update {smt fresh : AccountSMT sha256} {a b : AccountInfo}
    (h : smt.update key a=some fresh) (hb : fresh.values[key]?=some b) : b=a := by
  obtain ⟨l,hl,_⟩ := Store.update_eq_some.mp h
  rw [Store.getElem?_update_self h hl] at hb
  split_ifs at hb
  exact (Option.some.inj hb).symm

/-- A blob is accepted for the account under a key, or it leaves all of this account but
perhaps its name. -/
theorem next_cases {a b : AccountInfo} (ha : wallet.smt.values[key]?=some a)
    (hb : (next S quote wallet calldata).smt.values[key]?=some b) :
    (∃ action name,AcceptsAt S quote wallet key calldata action ∧
      action.account?=some name ∧
      AccountInfo.Accepts sha256 wallet.inviteCodePublicKey { a with identity := name }
        calldata action ∧
      b=AccountInfo.after { a with identity := name } calldata action) ∨
    ((∀ action,¬AcceptsAt S quote wallet key calldata action) ∧
      ∃ name,b={ a with identity := name }) := by
  cases hh : wallet.handle S quote calldata with
  | error e =>
    right
    refine ⟨?_,a.identity,?_⟩
    · intro action accepts
      obtain ⟨_,_,_,_,_,_,_,ho,_⟩ := accepts
      rw [hh] at ho
      cases ho
    · simp only [next,hh] at hb
      rw [ha] at hb
      exact (Option.some.inj hb).symm
  | ok handled =>
    obtain ⟨output,fresh⟩ := handled
    rw [next_of_ok hh] at hb
    have hhandled := handle_eq_ok.mp hh
    cases hp : parseRawCalldata WalletAction calldata with
    | error e =>
      simp only [actualHandle,hp,bind,Except.bind] at hhandled
      cases hhandled
    | ok parsed =>
      obtain ⟨action,ctx⟩ := parsed
      cases hn : action.account? with
      | none =>
        right
        refine ⟨?_,a.identity,?_⟩
        · intro other accepts
          obtain ⟨_,_,_,_,hother,hname,_⟩ := accepts
          rw [hp] at hother
          obtain ⟨rfl,_⟩ := Prod.mk.inj (Except.ok.inj hother)
          rw [hn] at hname
          cases hname
        · cases action with
          | updateInviteCodePublicKey newKey smtRoot =>
            obtain ⟨_,hf⟩ := (actualHandle_update hp).mp hhandled
            rw [(Prod.mk.inj hf).2] at hb
            change wallet.smt.values[key]?=_ at hb
            rw [ha] at hb
            exact (Option.some.inj hb).symm
          | _ => cases hn
      | some name =>
        obtain ⟨_,hcases⟩ := handled_cases hp hn hhandled
        by_cases hk : AccountInfo.computeKey sha256 name=key
        · subst hk
          rw [accountInfo_of_stored ha] at hcases
          obtain ⟨haccepts,hu,hs⟩|⟨_,hu,hs⟩ := hcases
          · exact Or.inl ⟨action,name,⟨ctx,name,output,fresh,hp,hn,rfl,hh,hs⟩,hn,haccepts,
              eq_of_update hu hb⟩
          · refine Or.inr ⟨?_,name,eq_of_update hu hb⟩
            intro other accepts
            obtain ⟨_,_,_,_,_,_,_,ho,hsuccess⟩ := accepts
            rw [hh] at ho
            rw [← (Prod.mk.inj (Except.ok.inj ho)).1,hs] at hsuccess
            cases hsuccess
        · right
          have hother : ∀ smt : AccountSMT sha256,∀ c,wallet.smt.update
              (AccountInfo.computeKey sha256 name) c=some smt →
              smt.values[key]?=wallet.smt.values[key]? :=
            fun smt c h => Store.getElem?_update_of_ne h (fun he => hk he.symm)
          have hsame : fresh.smt.values[key]?=wallet.smt.values[key]? := by
            obtain ⟨_,hu,_⟩|⟨_,hu,_⟩ := hcases
            · exact hother _ _ hu
            · exact hother _ _ hu
          refine ⟨?_,a.identity,?_⟩
          · intro other accepts
            obtain ⟨_,_,_,_,hother,hname,hkey,_⟩ := accepts
            rw [hp] at hother
            obtain ⟨rfl,_⟩ := Prod.mk.inj (Except.ok.inj hother)
            rw [hn] at hname
            obtain rfl := Option.some.inj hname
            exact hk hkey
          · rw [hsame,ha] at hb
            exact (Option.some.inj hb).symm

theorem acceptsAt_of_success {action : WalletAction} {ctx : ExecutionContext} {name : String}
    (hp : parseRawCalldata WalletAction calldata=.ok (action,ctx))
    (hn : action.account?=some name)
    (hs : (wallet.handle S quote calldata).toOption.map (fun handled => handled.1.success)=
      some true) :
    AcceptsAt S quote wallet (AccountInfo.computeKey sha256 name) calldata action := by
  cases hh : wallet.handle S quote calldata with
  | error e => simp [hh,Except.toOption] at hs
  | ok handled =>
    obtain ⟨output,fresh⟩ := handled
    refine ⟨ctx,name,output,fresh,hp,hn,rfl,hh,?_⟩
    simpa [hh,Except.toOption] using hs

/-- An accepted action writes the account that it leaves. -/
theorem AcceptsAt.written {action : WalletAction}
    (h : AcceptsAt S quote wallet key calldata action) :
    ∃ name,action.account?=some name ∧ AccountInfo.computeKey sha256 name=key ∧
      (wallet.accountInfo name).Accepts sha256 wallet.inviteCodePublicKey calldata action ∧
      wallet.smt.update key ((wallet.accountInfo name).after calldata action)=
        some (next S quote wallet calldata).smt := by
  obtain ⟨ctx,name,output,fresh,hp,hn,rfl,hh,hs⟩ := h
  obtain ⟨_,⟨haccepts,hu,_⟩|⟨_,_,hf⟩⟩ := handled_cases hp hn (handle_eq_ok.mp hh)
  · rw [next_of_ok hh]
    exact ⟨name,hn,rfl,haccepts,hu⟩
  · rw [hs] at hf
    cases hf

end Runs

end TruthSeeker.WalletClient.Wallet
