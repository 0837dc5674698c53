import TruthSeeker.Wallet.Handlers
import TruthSeeker.Wallet.ZkView

namespace TruthSeeker.Wallet

open Bytes Sdk SparseMerkle

/-- The accounts of the wallet under the digests of their identities. -/
abbrev AccountSMT (sha256 : Bytes → H256) :=
  Store H256 (fun a => (AccountInfo.toH256 sha256 a).toOption) (ByteVec.zero 32)

namespace AccountSMT

/-- The account committed under a name: a fresh one when the tree has none. -/
def committed {sha256 : Bytes → H256} (T : AccountSMT sha256) (name : String) : AccountInfo :=
  T.values[AccountInfo.computeKey sha256 name]?.getD { AccountInfo.default with identity := name }

end AccountSMT

namespace AccountInfo

variable {sha256 : Bytes → H256}

theorem toH256_uninitialized {a : AccountInfo} (h : a.authMethod=.uninitialized) :
    a.toH256 sha256=.ok (ByteVec.zero 32) := by
  simp [toH256,h]

theorem toH256_initialized {a : AccountInfo} {leaf : H256} (h : a.authMethod≠.uninitialized) :
    a.toH256 sha256=.ok leaf ↔ ∃ bs,Borsh.ser a=some bs ∧ sha256 bs=leaf := by
  simp only [toH256,if_neg h,Outcome.bind_eq_ok,Outcome.fromOption_eq_ok,Outcome.pure_eq_ok]

/-- Where SHA-256 has no collision, an initialised account is determined by its leaf. -/
theorem toH256_injective {a b : AccountInfo} {leaf : H256} {hashed : Set Bytes}
    (hinj : Set.InjOn sha256 hashed) (ha : a.authMethod≠.uninitialized)
    (hb : b.authMethod≠.uninitialized)
    (hma : ∀ bs,Borsh.ser a=some bs → bs∈hashed) (hmb : ∀ bs,Borsh.ser b=some bs → bs∈hashed)
    (hla : a.toH256 sha256=.ok leaf) (hlb : b.toH256 sha256=.ok leaf) : a=b := by
  obtain ⟨xs,hx,rfl⟩ := (toH256_initialized ha).mp hla
  obtain ⟨ys,hy,h⟩ := (toH256_initialized hb).mp hlb
  have hs : ys=xs := hinj (hmb ys hy) (hma xs hx) h
  exact Borsh.ser_injective hx (hs ▸ hy)

theorem after_authMethod (a : AccountInfo) (calldata : Calldata) {action : WalletAction}
    (h : action.isRegister=false) : (a.after calldata action).authMethod=a.authMethod := by
  cases action <;> first | rfl | simp [WalletAction.isRegister] at h

/-- An accepted registration leaves an account with a password. -/
theorem Accepts.after_register {key : InviteCodePubKey} {a b : AccountInfo}
    {calldata : Calldata} {action : WalletAction} (h : a.Accepts sha256 key calldata action)
    (hr : action.isRegister=true) : (b.after calldata action).authMethod≠.uninitialized := by
  cases action with
  | registerIdentity account nonce salt authMethod inviteCode =>
    obtain ⟨_,_,⟨secret,_,rfl⟩,_,_⟩ := h
    simp [after]
  | _ => simp [WalletAction.isRegister] at hr

/-- An accepted removal changes the account. -/
theorem Accepts.after_remove_ne {key : InviteCodePubKey} {a : AccountInfo}
    {calldata : Calldata} {name old : String}
    (h : a.Accepts sha256 key calldata (.removeSessionKey name old)) :
    a.after calldata (.removeSessionKey name old)≠a := by
  intro he
  obtain ⟨_,k,hk,ho⟩ := h
  have hs : a.sessionKeys.filter (fun k => k.publicKey≠old)=a.sessionKeys :=
    congrArg AccountInfo.sessionKeys he
  have hf := List.filter_eq_self.mp hs k hk
  simp [ho] at hf

end AccountInfo

namespace WalletZkView

section
variable {Proof : Type} (S : Scheme H256 H256 H256 Proof) {sha256 : Bytes → H256}
  (T : AccountSMT sha256) (key : InviteCodePubKey)

/-- The tree in which only the account of this name changed, to the given leaf. -/
def changed (name : String) (leaf : H256) : H256 → H256 :=
  Function.update T.leaf (AccountInfo.computeKey sha256 name) leaf

/-- The commitment is that of the tree in which the committed account went through
the action, and no other account changed. -/
def Applies (name : String) (action : WalletAction) (calldata : Calldata)
    (fresh : StateCommitment) : Prop :=
  ∃ output account leaf,
    (T.committed name).applyAction sha256 key action calldata=.ok (output,account) ∧
    account.toH256 sha256=.ok leaf ∧
    fresh=getStateCommitment sha256 (S.root (changed T name leaf)) key

/-- The byte strings whose digests the execution and its specification compare. -/
def hashed (data : PartialWalletData Proof) (name : String) (action : WalletAction)
    (calldata : Calldata) : Set Bytes :=
  {bs | bs=utf8 name ∨ bs=utf8 data.accountInfo.identity ∨
    (∃ a∈[data.accountInfo,data.accountInfo.after calldata action,T.committed name,
      (T.committed name).after calldata action],Borsh.ser a=some bs) ∨
    ∃ root : H256,bs=root.toList++key.toList ∧ (root=S.root T.leaf ∨
      (∃ a leaf,a∈[data.accountInfo,data.accountInfo.after calldata action] ∧
        a.toH256 sha256=.ok leaf ∧ S.computeRoot data.proof
          [(AccountInfo.computeKey sha256 data.accountInfo.identity,leaf)]=.ok root) ∨
      ∃ leaf,((T.committed name).after calldata action).toH256 sha256=.ok leaf ∧
        root=S.root (changed T name leaf))}

/-- No collision of SHA-256 on these strings, no account with the empty leaf as its
digest, and a proof that is sound for the tree before and after the action. -/
structure SoundCrypto (data : PartialWalletData Proof) (name : String) (action : WalletAction)
    (calldata : Calldata) : Prop where
  collisionFree : Set.InjOn sha256 (hashed S T key data name action calldata)
  leafNonzero : ∀ bs,Borsh.ser data.accountInfo=some bs → sha256 bs≠ByteVec.zero 32
  soundBefore : Sound S data.proof T.leaf
  soundAfter : ∀ leaf,((T.committed name).after calldata action).toH256 sha256=.ok leaf →
    Sound S data.proof (changed T name leaf)

/-- The parts of the supplied account that the commitment leaves free are as the
committed account has them. -/
def Pinned (account : AccountInfo) (name : String) (action : WalletAction) : Prop :=
  ((∃ old,action=.removeSessionKey name old) → account.identity=name) ∧
  (account.authMethod=.uninitialized → account.sessionKeys=[])

end

section
variable {Proof : Type} {S : Scheme H256 H256 H256 Proof} {sha256 : Bytes → H256}
  {T : AccountSMT sha256} {key : InviteCodePubKey} {data : PartialWalletData Proof}
  {name : String} {action : WalletAction} {calldata : Calldata}

/-- Roots under one invite key are told apart by their commitments. -/
theorem getStateCommitment_injective {hashed : Set Bytes} (hinj : Set.InjOn sha256 hashed)
    {r t : H256} (hr : r.toList++key.toList∈hashed) (ht : t.toList++key.toList∈hashed)
    (h : getStateCommitment sha256 r key=getStateCommitment sha256 t key) : r=t :=
  (ByteVec.append_inj (hinj hr ht (ByteVec.toList_injective h))).1

/-- The account supplied with an accepted action names it, unless the action removes a key. -/
theorem accepts_identity (hn : action.account?=some name)
    (hr : (∃ old,action=.removeSessionKey name old) → data.accountInfo.identity=name)
    (h : data.accountInfo.Accepts sha256 key calldata action) :
    data.accountInfo.identity=name := by
  cases action with
  | registerIdentity account nonce salt authMethod inviteCode =>
    obtain rfl : account=name := by simpa [WalletAction.account?] using hn
    exact h.2.2.2.1
  | verifyIdentity account nonce =>
    obtain rfl : account=name := by simpa [WalletAction.account?] using hn
    exact h.2.1
  | addSessionKey account newKey date whitelist lane =>
    obtain rfl : account=name := by simpa [WalletAction.account?] using hn
    exact h.2.1
  | removeSessionKey account old =>
    obtain rfl : account=name := by simpa [WalletAction.account?] using hn
    exact hr ⟨old,rfl⟩
  | useSessionKey account nonce =>
    obtain rfl : account=name := by simpa [WalletAction.account?] using hn
    exact h.1
  | updateInviteCodePublicKey newKey smtRoot => exact h.elim

/-- An uninitialised account is accepted for its registration, or for a session key. -/
theorem accepts_uninitialized (hu : data.accountInfo.authMethod=.uninitialized)
    (h : data.accountInfo.Accepts sha256 key calldata action) :
    action.isRegister=true ∨ data.accountInfo.sessionKeys≠[] ∧
      ∃ account nonce,action=.useSessionKey account nonce := by
  cases action with
  | registerIdentity account nonce salt authMethod inviteCode => exact Or.inl rfl
  | verifyIdentity account nonce =>
    obtain ⟨⟨secret,_,hp⟩,_⟩ := h
    rw [hu] at hp
    cases hp
  | addSessionKey account newKey date whitelist lane =>
    obtain ⟨⟨secret,_,hp⟩,_⟩ := h
    rw [hu] at hp
    cases hp
  | removeSessionKey account old =>
    obtain ⟨⟨secret,_,hp⟩,_⟩ := h
    rw [hu] at hp
    cases hp
  | useSessionKey account nonce =>
    obtain ⟨_,_,_,txCtx,k,_,hk,_⟩ := h
    have hm := List.mem_of_find?_eq_some hk
    exact Or.inr ⟨List.ne_nil_of_mem hm,account,nonce,rfl⟩
  | updateInviteCodePublicKey newKey smtRoot => exact h.elim

/-- A transition opens the committed tree at the supplied account, and its result is
the root of the tree where this account changed. -/
theorem transition_opens {res : String} {fresh : StateCommitment}
    (crypto : SoundCrypto S T key data name action calldata)
    (ht : transition S sha256 (getStateCommitment sha256 (S.root T.leaf) key) key data action
      calldata=.ok (res,fresh)) :
    data.accountInfo.Accepts sha256 key calldata action ∧
    data.accountInfo.toH256 sha256=.ok
      (T.leaf (AccountInfo.computeKey sha256 data.accountInfo.identity)) ∧
    ∃ leaf root,(data.accountInfo.after calldata action).toH256 sha256=.ok leaf ∧
      S.computeRoot data.proof
        [(AccountInfo.computeKey sha256 data.accountInfo.identity,leaf)]=.ok root ∧
      root=S.root (changed T data.accountInfo.identity leaf) ∧
      root.toList++key.toList∈hashed S T key data name action calldata ∧
      fresh=getStateCommitment sha256 root key := by
  obtain ⟨old,root,account,leaf,newRoot,hl,hr,hc,ha,hnl,hnr,hf⟩ := transition_eq_ok.mp ht
  obtain ⟨hacc,_,rfl⟩ := AccountInfo.applyAction_eq_ok.mp ha
  have hroot : root=S.root T.leaf := by
    refine getStateCommitment_injective crypto.collisionFree ?_ ?_ hc.symm
    · exact Or.inr (Or.inr (Or.inr ⟨root,rfl,Or.inr (Or.inl ⟨_,old,by simp,hl,hr⟩)⟩))
    · exact Or.inr (Or.inr (Or.inr ⟨_,rfl,Or.inl rfl⟩))
  rw [hroot] at hr
  have hold := crypto.soundBefore.opens_single hr
  have hnew : S.computeRoot data.proof
      [(AccountInfo.computeKey sha256 data.accountInfo.identity,leaf)]=
        .ok (S.root (changed T data.accountInfo.identity leaf)) :=
    crypto.soundBefore.recomputes_single hr
  refine ⟨hacc,by rw [hl,hold],leaf,newRoot,hnl,hnr,?_,?_,hf⟩
  · rw [hnr] at hnew
    exact Except.ok.inj hnew
  · exact Or.inr (Or.inr (Or.inr ⟨newRoot,rfl,Or.inr (Or.inl ⟨_,leaf,by simp,hnl,hnr⟩)⟩))

/-- An initialised account that opens the tree is the committed one. -/
theorem committed_of_initialized (crypto : SoundCrypto S T key data name action calldata)
    (hu : data.accountInfo.authMethod≠.uninitialized)
    (hl : data.accountInfo.toH256 sha256=.ok (T.leaf (AccountInfo.computeKey sha256 name))) :
    T.committed name=data.accountInfo := by
  obtain ⟨bs,hs,hd⟩ := (AccountInfo.toH256_initialized hu).mp hl
  have hz : T.leaf (AccountInfo.computeKey sha256 name)≠ByteVec.zero 32 := by
    rw [← hd]
    exact crypto.leafNonzero bs hs
  obtain ⟨a,hv,ha⟩ := Store.some_of_leaf_ne_zero hz
  have hc : T.committed name=a := by simp [AccountSMT.committed,hv]
  have hal : a.toH256 sha256=.ok (T.leaf (AccountInfo.computeKey sha256 name)) := by
    cases hx : a.toH256 sha256 with
    | error e => simp [hx,Except.toOption] at ha
    | ok l => simpa [hx,Except.toOption] using ha
  have hai : a.authMethod≠.uninitialized := by
    intro h
    rw [AccountInfo.toH256_uninitialized h] at hal
    exact hz (Except.ok.inj hal).symm
  rw [hc]
  refine AccountInfo.toH256_injective crypto.collisionFree hai hu ?_ ?_ hal hl
  · intro bs hb
    exact Or.inr (Or.inr (Or.inl ⟨T.committed name,by simp,by rw [hc,hb]⟩))
  · intro bs hb
    exact Or.inr (Or.inr (Or.inl ⟨data.accountInfo,by simp,hb⟩))

/-- An uninitialised account opens the tree only where it holds no account. -/
theorem committed_of_uninitialized (hu : data.accountInfo.authMethod=.uninitialized)
    (hl : data.accountInfo.toH256 sha256=.ok (T.leaf (AccountInfo.computeKey sha256 name))) :
    T.committed name={ AccountInfo.default with identity := name } := by
  rw [AccountInfo.toH256_uninitialized hu] at hl
  have hz := Store.none_of_leaf_zero (Except.ok.inj hl).symm
  simp [AccountSMT.committed,hz]

/-- A pinned account goes through the action as the committed one does. -/
theorem applies_of_pinned {res : String} {fresh : StateCommitment}
    (crypto : SoundCrypto S T key data name action calldata) (hn : action.account?=some name)
    (ht : transition S sha256 (getStateCommitment sha256 (S.root T.leaf) key) key data action
      calldata=.ok (res,fresh)) (pinned : Pinned data.accountInfo name action) :
    Applies S T key name action calldata fresh := by
  obtain ⟨hacc,hl,leaf,root,hnl,_,hroot,_,hf⟩ := transition_opens crypto ht
  have hi := accepts_identity hn pinned.1 hacc
  rw [hi] at hl hroot
  subst hroot
  by_cases hu : data.accountInfo.authMethod=.uninitialized
  · have hc := committed_of_uninitialized hu hl
    rcases accepts_uninitialized hu hacc with hr | ⟨hk,_⟩
    · cases action with
      | registerIdentity account nonce salt authMethod inviteCode =>
        have hk := pinned.2 hu
        refine ⟨_,_,leaf,AccountInfo.applyAction_eq_ok.mpr ⟨?_,rfl,rfl⟩,?_,hf⟩
        · obtain ⟨hs,hb,hp,_,_⟩ := hacc
          obtain rfl : account=name := by simpa [WalletAction.account?] using hn
          exact ⟨hs,hb,hp,by rw [hc],by rw [hc]; rfl⟩
        · rw [← hnl,hc]
          simp [AccountInfo.after,hi,hk,AccountInfo.default]
      | _ => simp [WalletAction.isRegister] at hr
    · exact absurd (pinned.2 hu) hk
  · have hc := committed_of_initialized crypto hu hl
    exact ⟨_,_,leaf,AccountInfo.applyAction_eq_ok.mpr ⟨hc ▸ hacc,rfl,rfl⟩,hc ▸ hnl,hf⟩

/-- Two changes of the tree with one commitment agree on the leaf that the proof opens. -/
theorem changed_leaf_eq {leaf other : H256} {fresh : StateCommitment} {root : H256}
    (crypto : SoundCrypto S T key data name action calldata)
    (hr : S.computeRoot data.proof
      [(AccountInfo.computeKey sha256 data.accountInfo.identity,leaf)]=.ok root)
    (hm : root.toList++key.toList∈hashed S T key data name action calldata)
    (ho : ((T.committed name).after calldata action).toH256 sha256=.ok other)
    (hf : fresh=getStateCommitment sha256 root key)
    (hg : fresh=getStateCommitment sha256 (S.root (changed T name other)) key) :
    changed T name other (AccountInfo.computeKey sha256 data.accountInfo.identity)=leaf := by
  have hroot : root=S.root (changed T name other) := by
    refine getStateCommitment_injective crypto.collisionFree hm ?_ (hf.symm.trans hg)
    exact Or.inr (Or.inr (Or.inr ⟨_,rfl,Or.inr (Or.inr ⟨other,ho,rfl⟩)⟩))
  rw [hroot] at hr
  exact (crypto.soundAfter other ho).opens_single hr

/-- Where the action applies to the committed account, the supplied one is pinned. -/
theorem pinned_of_applies {res : String} {fresh : StateCommitment}
    (crypto : SoundCrypto S T key data name action calldata) (hn : action.account?=some name)
    (ht : transition S sha256 (getStateCommitment sha256 (S.root T.leaf) key) key data action
      calldata=.ok (res,fresh)) (applies : Applies S T key name action calldata fresh) :
    Pinned data.accountInfo name action := by
  obtain ⟨hacc,hl,leaf,root,hnl,hr,_,hm,hf⟩ := transition_opens crypto ht
  obtain ⟨output,account,other,ha,ho,hg⟩ := applies
  obtain ⟨hcacc,_,rfl⟩ := AccountInfo.applyAction_eq_ok.mp ha
  have hleaf := changed_leaf_eq crypto hr hm ho hf hg
  constructor
  · rintro ⟨old,rfl⟩
    by_contra hne
    -- the leaf of another account is unchanged, but its session key was removed
    have hkeys : AccountInfo.computeKey sha256 data.accountInfo.identity≠
        AccountInfo.computeKey sha256 name := by
      intro he
      exact hne (utf8_injective (crypto.collisionFree (Or.inr (Or.inl rfl)) (Or.inl rfl) he))
    rw [changed,Function.update_of_ne hkeys] at hleaf
    rw [hleaf] at hl
    obtain ⟨⟨secret,_,hpw⟩,_⟩ := id hacc
    have hu : data.accountInfo.authMethod≠.uninitialized := by simp [hpw]
    have hau : (data.accountInfo.after calldata (.removeSessionKey name old)).authMethod≠
        .uninitialized := by rwa [AccountInfo.after_authMethod _ _ rfl]
    refine hacc.after_remove_ne (AccountInfo.toH256_injective crypto.collisionFree hau hu
      ?_ ?_ hnl hl)
    · exact fun bs hb => Or.inr (Or.inr (Or.inl ⟨_,by simp,hb⟩))
    · exact fun bs hb => Or.inr (Or.inr (Or.inl ⟨_,by simp,hb⟩))
  · intro hu
    have hi : data.accountInfo.identity=name := by
      refine accepts_identity hn ?_ hacc
      rintro ⟨old,rfl⟩
      obtain ⟨⟨secret,_,hpw⟩,_⟩ := hacc
      rw [hu] at hpw
      cases hpw
    rw [hi] at hl hleaf
    have hc := committed_of_uninitialized hu hl
    rcases accepts_uninitialized hu hacc with hreg | ⟨_,account,nonce,rfl⟩
    · have hsame : data.accountInfo.after calldata action=
          (T.committed name).after calldata action := by
        rw [changed,Function.update_self] at hleaf
        rw [hleaf] at ho
        refine AccountInfo.toH256_injective crypto.collisionFree (hacc.after_register hreg)
          (hacc.after_register hreg) ?_ ?_ hnl ho
        · exact fun bs hb => Or.inr (Or.inr (Or.inl ⟨_,by simp,hb⟩))
        · exact fun bs hb => Or.inr (Or.inr (Or.inl ⟨_,by simp,hb⟩))
      rw [hc] at hsame
      have hkeys := congrArg AccountInfo.sessionKeys hsame
      cases action with
      | registerIdentity account nonce salt authMethod inviteCode => exact hkeys
      | _ => simp [WalletAction.isRegister] at hreg
    · obtain ⟨_,_,_,txCtx,k,_,hk,_⟩ := hcacc
      rw [hc] at hk
      simp [AccountInfo.default] at hk

/-- A successful execution moves the commitment to the tree in which only the named
account changed, by the action, exactly when the supplied account is pinned: removing a
session key does not compare the account with the named one, and an uninitialised
account has the empty leaf whatever session keys it carries. -/
theorem execute_applies_iff {view view' : WalletZkView Proof} {ctx : ExecutionContext}
    {out : RunOk} (hp : parseRawCalldata WalletAction calldata=.ok (action,ctx))
    (hn : action.account?=some name) (hd : view.partialData.getLast?=some data)
    (hc : view.commitment=getStateCommitment sha256 (S.root T.leaf) view.inviteCodePublicKey)
    (crypto : SoundCrypto S T view.inviteCodePublicKey data name action calldata)
    (he : execute S sha256 view calldata=(.ok out,view')) :
    Applies S T view.inviteCodePublicKey name action calldata view'.commitment ↔
      Pinned data.accountInfo name action := by
  obtain ⟨other,res,commitment,ho,ht,_,rfl⟩ := (execute_eq_ok hp hn).mp he
  obtain rfl : data=other := by simpa [hd] using ho
  rw [hc] at ht
  exact ⟨pinned_of_applies crypto hn ht,applies_of_pinned crypto hn ht⟩

end

namespace Registration

/-- A session key that nobody added. -/
def planted : SessionKey :=
  ⟨hex (2::List.replicate 32 7),2000,0,none,none⟩

/-- The account that the prover supplies for a name without any account. -/
def supplied (keys : List SessionKey) : PartialWalletData Unit :=
  ⟨(),⟨"mallory",.uninitialized,keys,0⟩⟩

def action : WalletAction := .registerIdentity "mallory" 1 "salt" (.password "0a0b") "code"

def inviteDigest : H256 :=
  ByteVec.ofNat 32 0x4ff765fb4726cfafae870e8a35adcac4a0551838a5751e36bb1b6c2c5a1d31c4

def calldata : Calldata where
  txHash := ""
  identity := "mallory@wallet"
  blobs :=
    [(0,⟨"wallet",(Borsh.ser action).getD []⟩),
      (1,⟨"secp256k1",(Borsh.ser (Secp256k1Blob.mk "mallory@wallet" inviteDigest
        defaultInviteCodePublicKey (ByteVec.zero 64))).getD []⟩),
      (2,⟨"check_secret",[10,11]⟩)]
  txBlobCount := 3
  index := 0
  txCtx := none
  privateInput := []

def registered (keys : List SessionKey) : AccountInfo := ⟨"mallory",.password "0a0b",keys,1⟩

def accountKey : H256 :=
  ByteVec.ofNat 32 0xc0a497761b175379ed63397cc980546559faa84ca9cbeede773117c31508b6ac
def leaf : H256 :=
  ByteVec.ofNat 32 0x3dd2d189a4ab088ac6876009bc1cc68b05801b1068c853252df24b8ee1a6f3ef
def plantedLeaf : H256 :=
  ByteVec.ofNat 32 0x2112fb943e7411e714f358574b56fa07965a823de49451164b8de2a7e48b926d
def root : H256 :=
  ByteVec.ofNat 32 0x599c806f38b403bd5804fd4fdf4e87fccb3764d7381ede643f6f35d89da573fa
def plantedRoot : H256 :=
  ByteVec.ofNat 32 0x2c1c8489b11c2372e3ca8c27bc821e9d8ced01133f6eb14103cc299a18356066

def digests : List (Bytes × H256) :=
  [(utf8 "mallory",accountKey),
    ((Borsh.ser (registered [])).getD [],leaf),
    ((Borsh.ser (registered [planted])).getD [],plantedLeaf),
    ((Borsh.ser (supplied []).accountInfo).getD [],
      ByteVec.ofNat 32 0x9674e6117ec892282d8c5e8f8c675051e4690429d73ae9904501c0340846fa5a),
    ((Borsh.ser (supplied [planted]).accountInfo).getD [],
      ByteVec.ofNat 32 0xd61a9b45e81a7f60536f1ede2740453df517ff16bd0b2a501f03083c712b8b66),
    ((ByteVec.zero 32).toList++defaultInviteCodePublicKey.toList,
      ByteVec.ofNat 32 0x7952ca8cabc15bf49a42e6e3e9a6ec68b36aedcf313621e3573ba2c9c5a2e963),
    (root.toList++defaultInviteCodePublicKey.toList,
      ByteVec.ofNat 32 0xdfacb56ac920ae62fd45b4d39055ca4733722e9a8e7d8adffae8baa256eaee81),
    (plantedRoot.toList++defaultInviteCodePublicKey.toList,
      ByteVec.ofNat 32 0xb62a9f76485e901b36264577fd595e6c38cce3b70f93e9bb8f049f40844f6a96),
    (utf8 "Invite - code for mallory",inviteDigest)]

/-- SHA-256 at the byte strings of these executions. -/
def sha256 : Bytes → H256 := ByteVec.lookup digests

def rootOf (l : H256) : H256 :=
  if l=ByteVec.zero 32 then ByteVec.zero 32 else if l=plantedLeaf then plantedRoot
  else if l=leaf then root else leaf

def tree : Scheme H256 H256 H256 Unit := oneKey accountKey rootOf

def noAccounts : AccountSMT sha256 := Store.empty

def view (keys : List SessionKey) : WalletZkView Unit :=
  ⟨getStateCommitment sha256 (ByteVec.zero 32) defaultInviteCodePublicKey,
    defaultInviteCodePublicKey,[supplied keys]⟩

def ctx : ExecutionContext := ExecutionContext.new "mallory@wallet" "wallet"

def after (keys : List SessionKey) : WalletZkView Unit :=
  ⟨getStateCommitment sha256 (if keys=[] then root else plantedRoot)
    defaultInviteCodePublicKey,defaultInviteCodePublicKey,[]⟩

/-- What the two executions evaluate to. -/
structure Evaluated : Prop where
  executed : parseRawCalldata WalletAction calldata=.ok (action,ctx) ∧
    ∀ keys ∈ [[],[planted]],execute tree sha256 (view keys) calldata=
      (.ok (utf8 "Successfully registered identity for account: mallory",ctx,[]),after keys)
  key : AccountInfo.computeKey sha256 "mallory"=accountKey
  registered : (((supplied []).accountInfo).after calldata action).toH256 sha256=.ok leaf
  distinct : plantedRoot≠ByteVec.zero 32 ∧ root≠ByteVec.zero 32 ∧ leaf≠ByteVec.zero 32 ∧
    ByteVec.zero 32≠root ∧ plantedRoot≠root ∧ leaf≠root
  roots : rootOf (ByteVec.zero 32)=ByteVec.zero 32 ∧ rootOf leaf=root
  start : ∀ keys ∈ [[],[planted]],(view keys).commitment=
    getStateCommitment sha256 (ByteVec.zero 32) defaultInviteCodePublicKey
  digests : (digests.map Prod.snd).Nodup
  nonzero : ∀ x ∈ Registration.digests.map Prod.fst,sha256 x≠ByteVec.zero 32
  named : utf8 "mallory"∈Registration.digests.map Prod.fst
  accounts : ∀ keys ∈ [[],[planted]],∀ a ∈ [(supplied keys).accountInfo,
    (supplied keys).accountInfo.after calldata action,(supplied []).accountInfo,
    (supplied []).accountInfo.after calldata action],
    (Borsh.ser a).getD []∈Registration.digests.map Prod.fst
  commitments : ∀ r ∈ [ByteVec.zero 32,root,plantedRoot],
    r.toList++defaultInviteCodePublicKey.toList∈Registration.digests.map Prod.fst
  computed : ∀ keys ∈ [[],[planted]],∀ a ∈ [(supplied keys).accountInfo,
    (supplied keys).accountInfo.after calldata action],
    (a.toH256 sha256).bind (fun l => Outcome.fromExcept (tree.computeRoot ()
      [(AccountInfo.computeKey sha256 (supplied keys).accountInfo.identity,l)])
      .panic)∈[ByteVec.zero 32,root,plantedRoot].map Except.ok

theorem evaluated : Evaluated := by
  constructor <;> decide +kernel

theorem rootOf_injective {l m : H256} (hm : m=ByteVec.zero 32 ∨ m=leaf)
    (h : rootOf l=rootOf m) : m=l := by
  obtain ⟨pz,rz,lz,zr,pr,lr⟩ := evaluated.distinct
  obtain ⟨hz,hl⟩ := evaluated.roots
  rcases hm with rfl | rfl
  · rw [hz,rootOf] at h
    split_ifs at h with h1 h2 h3
    · exact h1.symm
    · exact absurd h pz
    · exact absurd h rz
    · exact absurd h lz
  · rw [hl,rootOf] at h
    split_ifs at h with h1 h2 h3
    · exact absurd h zr
    · exact absurd h pr
    · exact h3.symm
    · exact absurd h lr

theorem noAccounts_leaf : noAccounts.leaf=fun _ => ByteVec.zero 32 :=
  funext (fun k => Store.empty_leaf k)

theorem root_noAccounts : tree.root noAccounts.leaf=ByteVec.zero 32 := by
  rw [noAccounts_leaf]
  exact evaluated.roots.1

theorem committed_eq : noAccounts.committed "mallory"=(supplied []).accountInfo := by
  simp [AccountSMT.committed,noAccounts,Store.empty,supplied,AccountInfo.default]

theorem mem_digests {bs : Bytes} {keys : List SessionKey} (hk : keys=[] ∨ keys=[planted])
    (h : bs∈hashed tree noAccounts defaultInviteCodePublicKey (supplied keys) "mallory" action
      calldata) : bs∈digests.map Prod.fst := by
  rcases h with rfl | rfl | ⟨a,ha,hs⟩ | ⟨r,rfl,hr⟩
  · exact evaluated.named
  · exact evaluated.named
  · rw [committed_eq] at ha
    have hm := evaluated.accounts keys (by simpa using hk) a ha
    rwa [hs] at hm
  · refine evaluated.commitments r ?_
    rcases hr with rfl | ⟨a,l,ha,hl,hr⟩ | ⟨l,hl,rfl⟩
    · simp [root_noAccounts]
    · have hm := evaluated.computed keys (by simpa using hk) a ha
      rw [hl,Except.bind,show (supplied keys).proof=() from rfl] at *
      rw [hr] at hm
      simpa [Outcome.fromExcept] using hm
    · rw [committed_eq,evaluated.registered] at hl
      obtain rfl := Except.ok.inj hl
      have hl : tree.root (changed noAccounts "mallory" leaf)=root := by
        change rootOf (changed noAccounts "mallory" leaf accountKey)=_
        rw [changed,evaluated.key,Function.update_self]
        exact evaluated.roots.2
      simp [hl]

theorem soundCrypto {keys : List SessionKey} (hk : keys=[] ∨ keys=[planted]) :
    SoundCrypto tree noAccounts defaultInviteCodePublicKey (supplied keys) "mallory" action
      calldata where
  collisionFree := by
    refine (ByteVec.lookup_injOn digests evaluated.digests).mono ?_
    exact fun bs h => mem_digests hk h
  leafNonzero := by
    intro bs h
    have hm : bs∈digests.map Prod.fst :=
      mem_digests hk (Or.inr (Or.inr (Or.inl ⟨_,by simp,h⟩)))
    exact evaluated.nonzero bs hm
  soundBefore := oneKey_sound (fun l h => by
    rw [noAccounts_leaf] at h ⊢
    exact rootOf_injective (Or.inl rfl) h)
  soundAfter := by
    intro l hl
    rw [committed_eq,evaluated.registered] at hl
    obtain rfl := Except.ok.inj hl
    refine oneKey_sound (fun l h => ?_)
    rw [changed,evaluated.key,Function.update_self] at h ⊢
    exact rootOf_injective (Or.inr rfl) h

theorem execute_supplied {keys : List SessionKey} (hk : keys=[] ∨ keys=[planted]) :
    parseRawCalldata WalletAction calldata=.ok (action,ctx) ∧
    execute tree sha256 (view keys) calldata=
      (.ok (utf8 "Successfully registered identity for account: mallory",ctx,[]),after keys) :=
  ⟨evaluated.executed.1,evaluated.executed.2 keys (by simpa using hk)⟩

end Registration

open Registration in
/-- A registration with a planted session key: the committed account has none. -/
theorem not_execute_applies :
    SoundCrypto Registration.tree noAccounts defaultInviteCodePublicKey
      (supplied [planted]) "mallory" Registration.action Registration.calldata ∧
    execute Registration.tree Registration.sha256 (view [planted]) Registration.calldata=
      (.ok (utf8 "Successfully registered identity for account: mallory",ctx,[]),
        Registration.after [planted]) ∧
    ¬Applies Registration.tree noAccounts defaultInviteCodePublicKey "mallory"
      Registration.action Registration.calldata (Registration.after [planted]).commitment := by
  have hk : [planted]=[] ∨ [planted]=[planted] := Or.inr rfl
  have hn : Registration.action.account?=some "mallory" := rfl
  have crypto := soundCrypto hk
  have run := execute_supplied hk
  refine ⟨crypto,run.2,?_⟩
  intro applies
  obtain ⟨data,res,commitment,hd,ht,_,hv⟩ :=
    (execute_eq_ok run.1 hn).mp run.2
  obtain rfl : supplied [planted]=data := by simpa [view] using hd
  have hc : commitment=(Registration.after [planted]).commitment := by rw [hv]
  have hroot : (view [planted]).commitment=getStateCommitment Registration.sha256
      (Registration.tree.root noAccounts.leaf) defaultInviteCodePublicKey := by
    rw [root_noAccounts]
    exact evaluated.start _ (by simp)
  rw [hroot,hc] at ht
  have pinned := pinned_of_applies crypto hn ht applies
  exact absurd (pinned.2 rfl) (by simp [supplied])

open Registration in
/-- A registration whose supplied account is the fresh one. -/
theorem execute_applies_iff_registration :
    Applies Registration.tree noAccounts defaultInviteCodePublicKey "mallory"
      Registration.action Registration.calldata (Registration.after []).commitment ↔
    Pinned (supplied []).accountInfo "mallory" Registration.action := by
  have hk : ([] : List SessionKey)=[] ∨ []=[planted] := Or.inl rfl
  have run := execute_supplied hk
  have hd : (view []).partialData.getLast?=some (supplied []) := rfl
  have hc : (view []).commitment=getStateCommitment Registration.sha256
      (Registration.tree.root noAccounts.leaf) defaultInviteCodePublicKey := by
    rw [root_noAccounts]
    exact evaluated.start _ (by simp)
  have hn : Registration.action.account?=some "mallory" := rfl
  have crypto := soundCrypto hk
  have h := execute_applies_iff run.1 hn hd hc crypto run.2
  exact h

end WalletZkView

end TruthSeeker.Wallet
