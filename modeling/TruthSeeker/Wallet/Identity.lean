import TruthSeeker.Wallet.Handlers
import TruthSeeker.Wallet.ZkView

namespace TruthSeeker.Wallet.WalletZkView

open Bytes Sdk SparseMerkle

section Binding
variable {Proof : Type} (S : Scheme H256 H256 H256 Proof) (sha256 : Bytes → H256)

/-- The supplied account is the one that the commitment holds at its key. -/
def Opens (view : WalletZkView Proof) (data : PartialWalletData Proof) : Prop :=
  ∃ leaf root,data.accountInfo.toH256 sha256=.ok leaf ∧
    S.computeRoot data.proof
      [(AccountInfo.computeKey sha256 data.accountInfo.identity,leaf)]=.ok root ∧
    view.commitment=getStateCommitment sha256 root view.inviteCodePublicKey

/-- The proof gives a root when the account changes. -/
def Recommits (data : PartialWalletData Proof) (account : AccountInfo) : Prop :=
  ∃ leaf root,account.toH256 sha256=.ok leaf ∧
    S.computeRoot data.proof
      [(AccountInfo.computeKey sha256 data.accountInfo.identity,leaf)]=.ok root

theorem execute_isOk_iff {view : WalletZkView Proof} {calldata : Calldata}
    {action : WalletAction} {ctx : ExecutionContext} {name : String}
    (hp : parseRawCalldata WalletAction calldata=.ok (action,ctx))
    (hn : action.account?=some name) :
    (∃ out,(execute S sha256 view calldata).1=.ok out) ↔
      ∃ data,view.partialData.getLast?=some data ∧ Opens S sha256 view data ∧
        data.accountInfo.Accepts sha256 view.inviteCodePublicKey calldata action ∧
        Recommits S sha256 data (data.accountInfo.after calldata action) := by
  constructor
  · rintro ⟨out,ho⟩
    have he : execute S sha256 view calldata=(.ok out,(execute S sha256 view calldata).2) := by
      rw [← ho]
    obtain ⟨data,res,commitment,hd,ht,_⟩ := (execute_eq_ok hp hn).mp he
    obtain ⟨leaf,root,account,newLeaf,newRoot,hl,hr,hc,ha,hnl,hnr,_⟩ := transition_eq_ok.mp ht
    obtain ⟨hacc,_,rfl⟩ := AccountInfo.applyAction_eq_ok.mp ha
    exact ⟨data,hd,⟨leaf,root,hl,hr,hc⟩,hacc,newLeaf,newRoot,hnl,hnr⟩
  · rintro ⟨data,hd,⟨leaf,root,hl,hr,hc⟩,hacc,newLeaf,newRoot,hnl,hnr⟩
    have ha := AccountInfo.applyAction_eq_ok.mpr
      ⟨hacc,rfl,rfl⟩
    have ht := transition_eq_ok.mpr ⟨leaf,root,_,newLeaf,newRoot,hl,hr,hc,ha,hnl,hnr,rfl⟩
    have he := (execute_eq_ok hp hn).mpr ⟨data,_,_,hd,ht,rfl,rfl⟩
    exact ⟨_,congrArg Prod.fst he⟩

/-- A successful action on an existing account comes from a transaction of this account. -/
def IdentityBound (view : WalletZkView Proof) (calldata : Calldata) : Prop :=
  ∀ action ctx name out,parseRawCalldata WalletAction calldata=.ok (action,ctx) →
    action.account?=some name → action.isRegister=false →
    (execute S sha256 view calldata).1=.ok out →
    calldata.identity=name++"@"++ctx.contractName

/-- The execution checks the proof, the authentication and the nonces of the supplied
account, but it never compares the identity of the transaction with the account named
by the action: the binding holds exactly where both already agree or one of these
checks fails. -/
theorem identityBound_iff (view : WalletZkView Proof) (calldata : Calldata) :
    IdentityBound S sha256 view calldata ↔
      ∀ action ctx name,parseRawCalldata WalletAction calldata=.ok (action,ctx) →
        action.account?=some name → action.isRegister=false →
        calldata.identity=name++"@"++ctx.contractName ∨
        ∀ data,view.partialData.getLast?=some data →
          ¬Opens S sha256 view data ∨
          ¬data.accountInfo.Accepts sha256 view.inviteCodePublicKey calldata action ∨
          ¬Recommits S sha256 data (data.accountInfo.after calldata action) := by
  constructor
  · intro bound action ctx name hp hn hr
    by_cases hi : calldata.identity=name++"@"++ctx.contractName
    · exact Or.inl hi
    · right
      intro data hd
      by_contra hall
      simp only [not_or,not_not] at hall
      obtain ⟨out,ho⟩ := (execute_isOk_iff S sha256 hp hn).mpr ⟨data,hd,hall⟩
      exact hi (bound action ctx name out hp hn hr ho)
  · intro cond action ctx name out hp hn hr ho
    rcases cond action ctx name hp hn hr with hi | hfail
    · exact hi
    · obtain ⟨data,hd,hopen,hacc,hrec⟩ := (execute_isOk_iff S sha256 hp hn).mp ⟨out,ho⟩
      rcases hfail data hd with h | h | h
      · exact absurd hopen h
      · exact absurd hacc h
      · exact absurd hrec h

end Binding

namespace SessionKeyOfAnotherUser

/-- The key that `mallory` registered, and her account. -/
def publicKey : ByteVec 33 := ⟨2::List.replicate 32 7,rfl⟩

def account : AccountInfo :=
  ⟨"mallory",.password "0a0b",[⟨hex publicKey.toList,2000,0,none,none⟩],1⟩

/-- A transaction of `alice`: mallory's session signs for it. -/
def calldata : Calldata where
  txHash := ""
  identity := "alice@wallet"
  blobs :=
    [(0,⟨"wallet",(Borsh.ser (WalletAction.useSessionKey "mallory" 1)).getD []⟩),
      (1,⟨"secp256k1",(Borsh.ser (Secp256k1Blob.mk "alice@wallet"
        (ByteVec.ofNat 32 0x6b86b273ff34fce19d6b804eff5a3f5747ada4eaa22f1d49c01e52ddb7875b4b)
        publicKey (ByteVec.zero 64))).getD []⟩)]
  txBlobCount := 2
  index := 0
  txCtx := some ⟨[],"",5,1000,0⟩
  privateInput := []

def key : H256 :=
  ByteVec.ofNat 32 0xc0a497761b175379ed63397cc980546559faa84ca9cbeede773117c31508b6ac
def leaf : H256 :=
  ByteVec.ofNat 32 0x2112fb943e7411e714f358574b56fa07965a823de49451164b8de2a7e48b926d
def root : H256 :=
  ByteVec.ofNat 32 0x2c1c8489b11c2372e3ca8c27bc821e9d8ced01133f6eb14103cc299a18356066
def freshLeaf : H256 :=
  ByteVec.ofNat 32 0x722b591c95b549a136dd3ce93a9117a74245b4678a53dfacf07c643d04065354
def freshRoot : H256 :=
  ByteVec.ofNat 32 0x073bb55465f592750781151ec221c4c03fbde2418da8d33e70d19c2b64fc2cdd

/-- SHA-256 at the byte strings of this execution. -/
def sha256 : Bytes → H256 := ByteVec.lookup
  [(utf8 "mallory",key),((Borsh.ser account).getD [],leaf),
    ((Borsh.ser (account.after calldata (.useSessionKey "mallory" 1))).getD [],freshLeaf),
    (root.toList++defaultInviteCodePublicKey.toList,
      ByteVec.ofNat 32 0xb62a9f76485e901b36264577fd595e6c38cce3b70f93e9bb8f049f40844f6a96),
    (freshRoot.toList++defaultInviteCodePublicKey.toList,
      ByteVec.ofNat 32 0xa724d80d41675a419d3871d4e7169b265b3a8a69d5a0ba84ae26b2553bbf5d71),
    (utf8 "1",
      ByteVec.ofNat 32 0x6b86b273ff34fce19d6b804eff5a3f5747ada4eaa22f1d49c01e52ddb7875b4b)]

/-- The tree with mallory's account only. -/
def tree : Scheme H256 H256 H256 Unit :=
  oneKey key (fun l => if l=leaf then root else if l=freshLeaf then freshRoot else ByteVec.zero 32)

def view : WalletZkView Unit :=
  ⟨getStateCommitment sha256 root defaultInviteCodePublicKey,defaultInviteCodePublicKey,
    [⟨(),account⟩]⟩

end SessionKeyOfAnotherUser

open SessionKeyOfAnotherUser in
/-- The session key of `mallory` authenticates a transaction of `alice`. -/
theorem not_identityBound :
    ¬IdentityBound SessionKeyOfAnotherUser.tree SessionKeyOfAnotherUser.sha256
      SessionKeyOfAnotherUser.view SessionKeyOfAnotherUser.calldata := by
  intro bound
  have hp : parseRawCalldata WalletAction calldata=
      .ok (.useSessionKey "mallory" 1,ExecutionContext.new "alice@wallet" "wallet") := by
    rw [parseRawCalldata_eq_ok]
    exact ⟨⟨"wallet",_⟩,rfl,by decide,rfl⟩
  have ho : (execute tree sha256 view calldata).1=
      .ok (utf8 "Session key is valid",ExecutionContext.new "alice@wallet" "wallet",[]) := by
    decide +kernel
  have h := bound _ _ "mallory" _ hp rfl rfl ho
  exact absurd h (by decide)

end TruthSeeker.Wallet.WalletZkView
