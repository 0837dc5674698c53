import TruthSeeker.SmtToken.Contract

namespace TruthSeeker.SmtToken

open Sdk SparseMerkle

/-- The account whose funds or rights an action uses. -/
def SmtTokenAction.authority : SmtTokenAction → Identity
  | .transfer sender _ _ => sender
  | .transferFrom _ spender _ _ => spender
  | .approve owner _ _ => owner

section
variable {Proof : Type} (S : Scheme H256 H256 H256 Proof) (sha256 : Bytes → H256)

/-- A successful action is run by the account that it names. -/
def CallerAuthorised (self : SmtTokenContract Proof) (calldata : Calldata) : Prop :=
  ∀ action ctx out,parseCalldata SmtTokenAction calldata=.ok (action,ctx) →
    (self.execute S sha256 calldata).1=.ok out → ctx.caller=action.authority

theorem execute_isOk_iff {self : SmtTokenContract Proof} {calldata : Calldata}
    {action : SmtTokenAction} {ctx : ExecutionContext}
    (hp : parseCalldata SmtTokenAction calldata=.ok (action,ctx)) :
    (∃ out,(self.execute S sha256 calldata).1=.ok out) ↔
      ∃ step changed fresh,self.steps.getLast?=some step ∧
        Accepts S sha256 self.commitment step changed action ∧
        Recomputed S sha256 step.proof changed fresh := by
  constructor
  · intro h
    obtain ⟨out,ho⟩ := h
    have he : self.execute S sha256 calldata=(.ok out,(self.execute S sha256 calldata).2) := by
      rw [← ho]
    obtain ⟨step,output,fresh,hs,hr,_⟩ := (execute_eq_ok hp).mp he
    obtain ⟨changed,hacc,hf⟩ := runAction_eq_ok.mp ⟨output,hr⟩
    exact ⟨step,changed,fresh,hs,hacc,hf⟩
  · intro h
    obtain ⟨step,changed,fresh,hs,hacc,hf⟩ := h
    obtain ⟨output,hr⟩ := runAction_eq_ok.mpr ⟨changed,hacc,hf⟩
    have he := (execute_eq_ok hp).mpr ⟨step,output,fresh,hs,hr,rfl,rfl⟩
    exact ⟨_,congrArg Prod.fst he⟩

/-- The actions check the supplied accounts, the balances and the allowance, but no action
reads the caller: it is the named account exactly where it already was, or where one of
these checks fails. -/
theorem callerAuthorised_iff (self : SmtTokenContract Proof) (calldata : Calldata) :
    CallerAuthorised S sha256 self calldata ↔
      ∀ action ctx,parseCalldata SmtTokenAction calldata=.ok (action,ctx) →
        ctx.caller=action.authority ∨
        ∀ step changed fresh,self.steps.getLast?=some step →
          ¬Accepts S sha256 self.commitment step changed action ∨
          ¬Recomputed S sha256 step.proof changed fresh := by
  constructor
  · intro auth action ctx hp
    by_cases hc : ctx.caller=action.authority
    · exact Or.inl hc
    · right
      intro step changed fresh hs
      by_contra hall
      simp only [not_or,not_not] at hall
      obtain ⟨out,ho⟩ := (execute_isOk_iff S sha256 hp).mpr ⟨step,changed,fresh,hs,hall⟩
      exact hc (auth action ctx out hp ho)
  · intro cond action ctx out hp ho
    rcases cond action ctx hp with hc | hfail
    · exact hc
    · obtain ⟨step,changed,fresh,hs,hacc,hf⟩ := (execute_isOk_iff S sha256 hp).mp ⟨out,ho⟩
      rcases hfail step changed fresh hs with h | h
      · exact absurd hacc h
      · exact absurd hf h

end

namespace OneAccount

/-- The only account of the tree. -/
def alice : Account := ⟨"alice@wallet",100,∅⟩

def approved : Account := alice.updateAllowances "mallory@wallet" 5

/-- An account that the tree does not hold, and what a transfer leaves of it. -/
def forged : Account := ⟨"alice@wallet",1000000,(∅ : Allowances).insert "mallory@wallet" 5⟩

def minted : Account := forged.updateAllowances "mallory@wallet" 0

def key : H256 :=
  ByteVec.ofNat 32 0x02b6ecc227f84f7ac2143dd01058753403bb67582a71af72cceb94e82df5a446
def leaf : H256 :=
  ByteVec.ofNat 32 0xb4ecd48452861eaa763f900d51b5b7031b8fe24c9c90754b37ea294336cfc7e3
def approvedLeaf : H256 :=
  ByteVec.ofNat 32 0x5162ffc9fba88d0dc559f203cf0bf33bdb7bf5be2569f5f5357c80406d23ab28
def forgedLeaf : H256 :=
  ByteVec.ofNat 32 0xda5c9b4cf150e195426e940a1fc90054c9267c8fda0dc35116cdef93b5e67252
def mintedLeaf : H256 :=
  ByteVec.ofNat 32 0x58548f87d69382a54919b673d22bd124c9226f523fa54862b20f1c2c4310c735
def root : H256 :=
  ByteVec.ofNat 32 0x1dfaaf8325fb73c1eeef6e5cc260a167bb986d4852c0d38e53316a4648a9ff72
def approvedRoot : H256 :=
  ByteVec.ofNat 32 0x0ac6a8f5de546809c57cb25fce352d6f9d5020e0f7ebbd26a2c285777c1e75a3
def mintedRoot : H256 :=
  ByteVec.ofNat 32 0x9f9e168b5892dd2ab091a02229144d38b8f1ab3606ecd2a1d6f180f237834850

def digests : List (Bytes × H256) :=
  [(utf8 "alice@wallet",key),((Borsh.ser alice).getD [],leaf),
    ((Borsh.ser approved).getD [],approvedLeaf),((Borsh.ser forged).getD [],forgedLeaf),
    ((Borsh.ser minted).getD [],mintedLeaf)]

/-- SHA-256 at the byte strings of these executions. -/
def sha256 : Bytes → H256 := ByteVec.lookup digests

def rootOf (l : H256) : H256 :=
  if l=leaf then root else if l=approvedLeaf then approvedRoot
  else if l=mintedLeaf then mintedRoot else ByteVec.zero 32

def tree : Scheme H256 H256 H256 Unit := oneKey key rootOf

def step (account : Account) : SmtTokenStep Unit :=
  ⟨(),(∅ : Std.ExtTreeMap Identity Account).insert "alice@wallet" account⟩

def contract (account : Account) : SmtTokenContract Unit := ⟨root.toList,[step account]⟩

/-- A transaction of `mallory` with one blob for the token. -/
def calldata (action : SmtTokenAction) : Calldata where
  txHash := ""
  identity := "mallory@wallet"
  blobs := [(0,⟨"oranj",(Borsh.ser (StructuredBlobData.mk none none action)).getD []⟩)]
  txBlobCount := 1
  index := 0
  txCtx := none
  privateInput := []

def ctx : ExecutionContext := ⟨[],"mallory@wallet","oranj"⟩

def approval : SmtTokenAction := .approve "alice@wallet" "mallory@wallet" 5

theorem execute_approval :
    parseCalldata SmtTokenAction (calldata approval)=.ok (approval,ctx) ∧
    (contract alice).execute tree sha256 (calldata approval)=
      (.ok (utf8 "Approved 5 to mallory@wallet",ctx,[]),⟨approvedRoot.toList,[]⟩) := by
  decide +kernel

end OneAccount

open OneAccount in
/-- `mallory` approves herself on the account of `alice`. -/
theorem not_callerAuthorised :
    ¬CallerAuthorised OneAccount.tree OneAccount.sha256 (contract alice)
      (calldata approval) := by
  intro auth
  have run := execute_approval
  have ho := congrArg Prod.fst run.2
  have h := auth approval ctx _ run.1 ho
  exact absurd h (by decide)

end TruthSeeker.SmtToken
