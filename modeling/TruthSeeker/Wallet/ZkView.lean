import TruthSeeker.Framework.SparseMerkle
import TruthSeeker.Wallet.Account

namespace TruthSeeker.Wallet

open Bytes Sdk SparseMerkle

def defaultInviteCodePublicKey : InviteCodePubKey :=
  ⟨[2,82,222,37,58,251,184,56,112,182,255,255,252,221,235,53,107,2,98,178,4,
    234,13,218,118,136,8,202,95,190,184,177,226],rfl⟩

def getStateCommitment (sha256 : Bytes → H256) (root : H256) (pubkey : InviteCodePubKey) :
    StateCommitment :=
  (sha256 (root.toList++pubkey.toList)).toList

/-- One account with the proof of its leaf. -/
structure PartialWalletData (Proof : Type) where
  proof : Proof
  accountInfo : AccountInfo
  deriving DecidableEq

/-- The part of the wallet that the circuit sees. -/
structure WalletZkView (Proof : Type) where
  commitment : StateCommitment
  inviteCodePublicKey : InviteCodePubKey
  partialData : List (PartialWalletData Proof)
  deriving DecidableEq

abbrev RunOk := Bytes × ExecutionContext × List OnchainEffect

namespace WalletZkView

variable {Proof : Type} (S : Scheme H256 H256 H256 Proof) (sha256 : Bytes → H256)

/-- Checks the supplied account against the commitment, runs the handler on it and
recomputes the commitment. -/
def transition (commitment : StateCommitment) (key : InviteCodePubKey)
    (data : PartialWalletData Proof) (action : WalletAction) (calldata : Calldata) :
    Outcome (String × StateCommitment) := do
  let accountKey := AccountInfo.computeKey sha256 data.accountInfo.identity
  let leaf ← data.accountInfo.toH256 sha256
  let root ← Outcome.fromExcept (S.computeRoot data.proof [(accountKey,leaf)])
    (fun _ => .panic "Failed to compute root from proof")
  let verified ← Outcome.fromExcept (S.verify data.proof root [(accountKey,leaf)])
    (fun e => .err s!"Failed to verify proof: {e}")
  let computed := getStateCommitment sha256 root key
  Outcome.panicUnless (commitment=computed)
    s!"State commitment mismatch: expected StateCommitment({hex commitment}), got StateCommitment({hex computed})"
  Outcome.panicUnless (verified=true) "Proof verification failed for the contract state"
  let (res,accountInfo) ← data.accountInfo.applyAction sha256 key action calldata
  let newLeaf ← accountInfo.toH256 sha256
  let newRoot ← Outcome.fromExcept (S.computeRoot data.proof [(accountKey,newLeaf)])
    (fun _ => .panic "Failed to compute new root")
  return (res,getStateCommitment sha256 newRoot key)

def execute (view : WalletZkView Proof) (calldata : Calldata) :
    Outcome RunOk × WalletZkView Proof :=
  match parseRawCalldata WalletAction calldata with
  | .error e => (.error e,view)
  | .ok (.updateInviteCodePublicKey inviteCodePublicKey smtRoot,ctx) =>
    if view.inviteCodePublicKey≠defaultInviteCodePublicKey then
      (Outcome.err "Invite code public key already set",view)
    else
      (.ok (utf8 "Updated public key",ctx,[]),{ view with
        inviteCodePublicKey := inviteCodePublicKey
        commitment := getStateCommitment sha256 smtRoot inviteCodePublicKey })
  | .ok (action,ctx) =>
    match view.partialData.getLast? with
    | none => (Outcome.panic "No partial data available for the contract state",view)
    | some data =>
      let view := { view with partialData := view.partialData.dropLast }
      match transition S sha256 view.commitment view.inviteCodePublicKey data action calldata with
      | .error e => (.error e,view)
      | .ok (res,commitment) =>
        (.ok (utf8 res,ctx,[]),{ view with commitment := commitment })

variable {S sha256}

/-- A transition succeeds exactly when the proof opens the commitment at the supplied
account, the handler accepts the action and the proof gives a new root. -/
theorem transition_eq_ok {commitment fresh : StateCommitment} {key : InviteCodePubKey}
    {data : PartialWalletData Proof} {action : WalletAction} {calldata : Calldata}
    {res : String} :
    transition S sha256 commitment key data action calldata=.ok (res,fresh) ↔
      ∃ leaf root account newLeaf newRoot,
        data.accountInfo.toH256 sha256=.ok leaf ∧
        S.computeRoot data.proof
          [(AccountInfo.computeKey sha256 data.accountInfo.identity,leaf)]=.ok root ∧
        commitment=getStateCommitment sha256 root key ∧
        data.accountInfo.applyAction sha256 key action calldata=.ok (res,account) ∧
        account.toH256 sha256=.ok newLeaf ∧
        S.computeRoot data.proof
          [(AccountInfo.computeKey sha256 data.accountInfo.identity,newLeaf)]=.ok newRoot ∧
        fresh=getStateCommitment sha256 newRoot key := by
  simp only [transition,Outcome.bind_eq_ok,Outcome.fromExcept_eq_ok,Outcome.panicUnless_eq_ok,
    Outcome.pure_eq_ok,Prod.mk.injEq]
  constructor
  · rintro ⟨leaf,hl,root,hr,verified,hv,_,hc,_,hp,⟨res',account⟩,ha,newLeaf,hn,newRoot,hw,rfl,rfl⟩
    exact ⟨leaf,root,account,newLeaf,newRoot,hl,hr,hc,ha,hn,hw,rfl⟩
  · rintro ⟨leaf,root,account,newLeaf,newRoot,hl,hr,hc,ha,hn,hw,rfl⟩
    exact ⟨leaf,hl,root,hr,true,verify_computed hr,(),hc,(),rfl,(res,account),ha,newLeaf,hn,
      newRoot,hw,rfl,rfl⟩

/-- An action on an account takes the last partial data, whatever comes of it. -/
theorem execute_account {view : WalletZkView Proof} {calldata : Calldata}
    {action : WalletAction} {ctx : ExecutionContext} {name : String}
    {d : PartialWalletData Proof}
    (hp : parseRawCalldata WalletAction calldata=.ok (action,ctx))
    (hn : action.account?=some name) (hd : view.partialData.getLast?=some d) :
    execute S sha256 view calldata=
      match transition S sha256 view.commitment view.inviteCodePublicKey d action calldata with
      | .error e => (.error e,{ view with partialData := view.partialData.dropLast })
      | .ok (res,commitment) => (.ok (utf8 res,ctx,[]),
          ⟨commitment,view.inviteCodePublicKey,view.partialData.dropLast⟩) := by
  unfold execute
  rw [hp]
  cases action with
  | updateInviteCodePublicKey key root => cases hn
  | _ => simp only [hd]

theorem execute_account_none {view : WalletZkView Proof} {calldata : Calldata}
    {action : WalletAction} {ctx : ExecutionContext} {name : String}
    (hp : parseRawCalldata WalletAction calldata=.ok (action,ctx))
    (hn : action.account?=some name) (hd : view.partialData.getLast?=none) :
    execute S sha256 view calldata=
      (Outcome.panic "No partial data available for the contract state",view) := by
  unfold execute
  rw [hp]
  cases action with
  | updateInviteCodePublicKey key root => cases hn
  | _ => simp only [hd]

/-- An action on an account succeeds exactly when the last partial data, which it
consumes, gives a transition. -/
theorem execute_eq_ok {view view' : WalletZkView Proof} {calldata : Calldata}
    {action : WalletAction} {ctx : ExecutionContext} {out : RunOk} {name : String}
    (hp : parseRawCalldata WalletAction calldata=.ok (action,ctx))
    (hn : action.account?=some name) :
    execute S sha256 view calldata=(.ok out,view') ↔
      ∃ data res commitment,view.partialData.getLast?=some data ∧
        transition S sha256 view.commitment view.inviteCodePublicKey data action calldata=
          .ok (res,commitment) ∧
        out=(utf8 res,ctx,[]) ∧
        view'=⟨commitment,view.inviteCodePublicKey,view.partialData.dropLast⟩ := by
  cases hd : view.partialData.getLast? with
  | none => simp [execute_account_none hp hn hd,Outcome.panic]
  | some data =>
    rw [execute_account hp hn hd]
    cases ht : transition S sha256 view.commitment view.inviteCodePublicKey data action
        calldata with
    | error e => simp [ht]
    | ok p =>
      obtain ⟨res,commitment⟩ := p
      simp [ht,eq_comm]

end WalletZkView

end TruthSeeker.Wallet
