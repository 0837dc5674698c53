import TruthSeeker.Wallet.Soundness

namespace TruthSeeker.Wallet.WalletZkView

open Bytes Sdk SparseMerkle

section
variable {Proof : Type} (S : Scheme H256 H256 H256 Proof) {sha256 : Bytes → H256}
  (T : AccountSMT sha256)

/-- A change of the invite key commits to the same accounts under the new key. -/
def KeepsAccounts (view : WalletZkView Proof) (calldata : Calldata) : Prop :=
  ∀ key smtRoot ctx out view',
    view.commitment=getStateCommitment sha256 (S.root T.leaf) view.inviteCodePublicKey →
    parseRawCalldata WalletAction calldata=
      .ok (.updateInviteCodePublicKey key smtRoot,ctx) →
    execute S sha256 view calldata=(.ok out,view') →
    view'.commitment=getStateCommitment sha256 (S.root T.leaf) key

variable {S T}

theorem execute_update {view view' : WalletZkView Proof} {calldata : Calldata} {out : RunOk}
    {key : InviteCodePubKey} {smtRoot : H256} {ctx : ExecutionContext}
    (hp : parseRawCalldata WalletAction calldata=
      .ok (.updateInviteCodePublicKey key smtRoot,ctx)) :
    execute S sha256 view calldata=(.ok out,view') ↔
      view.inviteCodePublicKey=defaultInviteCodePublicKey ∧
      out=(utf8 "Updated public key",ctx,[]) ∧
      view'={ view with
        inviteCodePublicKey := key
        commitment := getStateCommitment sha256 smtRoot key } := by
  simp only [execute,hp]
  split_ifs with h
  · constructor
    · intro he
      cases congrArg Prod.fst he
    · intro ⟨hk,_⟩
      exact absurd hk h
  · simp only [ne_eq,not_not] at h
    simp only [h,Prod.mk.injEq,Except.ok.injEq,true_and]
    exact ⟨fun ⟨ho,hv⟩ => ⟨ho.symm,hv.symm⟩,fun ⟨ho,hv⟩ => ⟨ho.symm,hv.symm⟩⟩

/-- The root of the action is committed as it is. The accounts are kept exactly when the
action does not change the key, because it names no key or because one is set already, or
when its root is the one of the accounts. -/
theorem keepsAccounts_iff {view : WalletZkView Proof} {calldata : Calldata}
    (hc : view.commitment=getStateCommitment sha256 (S.root T.leaf) view.inviteCodePublicKey)
    (collisionFree : ∀ key smtRoot ctx,parseRawCalldata WalletAction calldata=
        .ok (.updateInviteCodePublicKey key smtRoot,ctx) →
      Set.InjOn sha256 {smtRoot.toList++key.toList,(S.root T.leaf).toList++key.toList}) :
    KeepsAccounts S T view calldata ↔
      ∀ key smtRoot ctx,parseRawCalldata WalletAction calldata=
        .ok (.updateInviteCodePublicKey key smtRoot,ctx) →
      view.inviteCodePublicKey=defaultInviteCodePublicKey → smtRoot=S.root T.leaf := by
  constructor
  · intro keeps key smtRoot ctx hp hk
    have he : execute S sha256 view calldata=_ := (execute_update hp).mpr ⟨hk,rfl,rfl⟩
    have hfresh := keeps key smtRoot ctx _ _ hc hp he
    exact getStateCommitment_injective (collisionFree key smtRoot ctx hp) (by simp) (by simp)
      hfresh
  · intro cond key smtRoot ctx out view' _ hp he
    obtain ⟨hk,_,rfl⟩ := (execute_update hp).mp he
    rw [← cond key smtRoot ctx hp hk]

end

namespace NewInviteKey

def key : InviteCodePubKey := ⟨List.replicate 33 4,rfl⟩

/-- SHA-256 at the byte strings of these executions. -/
def sha256 : Bytes → H256 := ByteVec.lookup
  [((ByteVec.zero 32).toList++defaultInviteCodePublicKey.toList,
      ByteVec.ofNat 32 0x7952ca8cabc15bf49a42e6e3e9a6ec68b36aedcf313621e3573ba2c9c5a2e963),
    (Registration.plantedRoot.toList++key.toList,
      ByteVec.ofNat 32 0x681370833de4b49d7cad8b053f22a28dd2ae1829c517a3667a2a2c6fa4d82006),
    ((ByteVec.zero 32).toList++key.toList,
      ByteVec.ofNat 32 0x15b09923ac4d0822a58eb3cd974057bf23e9ab52285989b2cb48323c8ab9e126)]

def noAccounts : AccountSMT sha256 := Store.empty

def view : WalletZkView Unit :=
  ⟨getStateCommitment sha256 (ByteVec.zero 32) defaultInviteCodePublicKey,
    defaultInviteCodePublicKey,[]⟩

def calldata (smtRoot : H256) : Calldata where
  txHash := ""
  identity := "mallory@wallet"
  blobs := [(0,⟨"wallet",
    (Borsh.ser (WalletAction.updateInviteCodePublicKey key smtRoot)).getD []⟩)]
  txBlobCount := 1
  index := 0
  txCtx := none
  privateInput := []

def ctx : ExecutionContext := ExecutionContext.new "mallory@wallet" "wallet"

theorem commitment_eq : view.commitment=getStateCommitment sha256
    (Registration.tree.root noAccounts.leaf) view.inviteCodePublicKey := by
  have hl : noAccounts.leaf=fun _ => ByteVec.zero 32 := funext (fun k => Store.empty_leaf k)
  rw [hl]
  decide +kernel

theorem parse_calldata {smtRoot : H256}
    (h : smtRoot=ByteVec.zero 32 ∨ smtRoot=Registration.plantedRoot) :
    parseRawCalldata WalletAction (calldata smtRoot)=
      .ok (.updateInviteCodePublicKey key smtRoot,ctx) := by
  rcases h with rfl | rfl
  · decide +kernel
  · decide +kernel

end NewInviteKey

open NewInviteKey in
/-- The new key comes with the root of a tree in which `mallory` has an account. -/
theorem not_keepsAccounts :
    ¬KeepsAccounts Registration.tree noAccounts view (calldata Registration.plantedRoot) := by
  intro keeps
  have hp := parse_calldata (Or.inr rfl)
  have he : execute Registration.tree NewInviteKey.sha256 view
      (calldata Registration.plantedRoot)=_ := (execute_update hp).mpr ⟨rfl,rfl,rfl⟩
  have hfresh := keeps key Registration.plantedRoot ctx _ _ commitment_eq hp he
  have hl : noAccounts.leaf=fun _ => ByteVec.zero 32 := funext (fun k => Store.empty_leaf k)
  rw [hl] at hfresh
  exact absurd hfresh (by decide +kernel)

open NewInviteKey in
/-- The new key comes with the root of the accounts. -/
theorem keepsAccounts_iff_root :
    KeepsAccounts Registration.tree noAccounts view (calldata (ByteVec.zero 32)) ↔
      ∀ key smtRoot ctx,parseRawCalldata WalletAction (calldata (ByteVec.zero 32))=
        .ok (.updateInviteCodePublicKey key smtRoot,ctx) →
      view.inviteCodePublicKey=defaultInviteCodePublicKey →
      smtRoot=Registration.tree.root noAccounts.leaf := by
  have hr : Registration.tree.root noAccounts.leaf=ByteVec.zero 32 := by
    rw [show noAccounts.leaf=fun _ => ByteVec.zero 32 from funext (fun k => Store.empty_leaf k)]
    decide +kernel
  refine keepsAccounts_iff commitment_eq ?_
  intro key' smtRoot ctx' hp
  rw [parse_calldata (Or.inl rfl)] at hp
  obtain ⟨ha,_⟩ := Prod.mk.inj (Except.ok.inj hp)
  obtain ⟨_,rfl⟩ := WalletAction.updateInviteCodePublicKey.inj ha
  rw [hr]
  simp

end TruthSeeker.Wallet.WalletZkView
