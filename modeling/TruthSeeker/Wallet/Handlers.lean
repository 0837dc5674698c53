import TruthSeeker.Wallet.Account

namespace TruthSeeker.Wallet

open Bytes Sdk

namespace AccountInfo

/-- The public key of the signature that the calldata carries, as sessions name it. -/
def signer (calldata : Calldata) : String :=
  ((CheckSecp256k1.attested calldata).map (fun b => hex b.publicKey.toList)).getD ""

/-- The signature blob is for the identity of the transaction and for the given text. -/
def Signs (sha256 : Bytes → H256) (calldata : Calldata) (text : String) : Prop :=
  ∃ blob,CheckSecp256k1.attested calldata=some blob ∧ blob.identity=calldata.identity ∧
    blob.data=sha256 (utf8 text)

/-- What the handlers require of the supplied account and of the calldata. -/
def Accepts (sha256 : Bytes → H256) (key : InviteCodePubKey) (self : AccountInfo)
    (calldata : Calldata) : WalletAction → Prop
  | .registerIdentity account _ _ authMethod inviteCode =>
      Signs sha256 calldata s!"Invite - {inviteCode} for {account}" ∧
      (∃ blob,CheckSecp256k1.attested calldata=some blob ∧ blob.publicKey=key) ∧
      authMethod.Proves calldata ∧ self.identity=account ∧ self.authMethod=.uninitialized
  | .verifyIdentity account nonce =>
      self.authMethod.Proves calldata ∧ self.identity=account ∧ self.nonce<nonce
  | .addSessionKey account key _ _ _ =>
      self.authMethod.Proves calldata ∧ self.identity=account ∧
      ∀ k∈self.sessionKeys,k.publicKey≠key
  | .removeSessionKey _ key =>
      self.authMethod.Proves calldata ∧ ∃ k∈self.sessionKeys,k.publicKey=key
  | .useSessionKey account nonce =>
      self.identity=account ∧ Signs sha256 calldata (toString nonce.toNat) ∧
      calldata.blobs.length=calldata.txBlobCount.toNat ∧
      ∃ txCtx k,calldata.txCtx=some txCtx ∧
        self.sessionKeys.find? (fun k => k.publicKey=signer calldata)=some k ∧
        k.Usable calldata txCtx
  | .updateInviteCodePublicKey .. => False

/-- The account that a successful handler leaves. -/
def after (self : AccountInfo) (calldata : Calldata) : WalletAction → AccountInfo
  | .registerIdentity _ nonce _ authMethod _ =>
      { self with authMethod := authMethod, nonce := nonce }
  | .verifyIdentity _ nonce => { self with nonce := nonce }
  | .addSessionKey _ key expirationDate whitelist laneId => { self with
      sessionKeys := self.sessionKeys++[⟨key,expirationDate,0,whitelist,laneId⟩]
      nonce := self.nonce+1 }
  | .removeSessionKey _ key => { self with
      sessionKeys := self.sessionKeys.filter (fun k => k.publicKey≠key)
      nonce := self.nonce+1 }
  | .useSessionKey _ nonce => { self with
      sessionKeys := updateFirst (fun k => k.publicKey=signer calldata)
        (fun k => { k with nonce := nonce }) self.sessionKeys }
  | .updateInviteCodePublicKey .. => self

/-- The program output of a successful handler. -/
def message : WalletAction → String
  | .registerIdentity account .. =>
      s!"Successfully registered identity for account: {account}"
  | .verifyIdentity .. => "Identity verified"
  | .addSessionKey .. => "Session key added"
  | .removeSessionKey .. => "Session key removed"
  | .useSessionKey .. => "Session key is valid"
  | .updateInviteCodePublicKey .. => ""

@[simp] theorem after_identity (self : AccountInfo) (calldata : Calldata)
    (action : WalletAction) : (self.after calldata action).identity=self.identity := by
  cases action <;> rfl

theorem checkForInviteCode_eq_ok {sha256 : Bytes → H256} {account inviteCode : String}
    {calldata : Calldata} {key : InviteCodePubKey} {u : Unit} :
    checkForInviteCode sha256 account inviteCode calldata key=.ok u ↔
      Signs sha256 calldata s!"Invite - {inviteCode} for {account}" ∧
      ∃ blob,CheckSecp256k1.attested calldata=some blob ∧ blob.publicKey=key := by
  simp only [checkForInviteCode,Outcome.bind_eq_ok,Outcome.ensure_eq_ok,
    CheckSecp256k1.expect_eq_ok,Signs]
  constructor
  · rintro ⟨blob,⟨ha,hi,hd⟩,hk⟩
    exact ⟨⟨blob,ha,hi,hd⟩,blob,ha,hk⟩
  · rintro ⟨⟨blob,ha,hi,hd⟩,other,ho,hk⟩
    obtain rfl : blob=other := by simpa [ha] using ho
    exact ⟨blob,⟨ha,hi,hd⟩,hk⟩

theorem handleRegistration_eq_ok {self account' : AccountInfo} {account message : String}
    {nonce : U128} {authMethod : AuthMethod} {calldata : Calldata} :
    self.handleRegistration account nonce authMethod calldata=.ok (message,account') ↔
      authMethod.Proves calldata ∧ self.identity=account ∧ self.authMethod=.uninitialized ∧
      message=s!"Successfully registered identity for account: {account}" ∧
      account'={ self with authMethod := authMethod, nonce := nonce } := by
  simp only [handleRegistration,registerIdentity,Outcome.bind_eq_ok,Outcome.ensure_eq_ok,
    Outcome.pure_eq_ok,AuthMethod.verify_eq_ok,Prod.mk.injEq]
  constructor
  · rintro ⟨_,⟨hp,_⟩,_,hi,_,hu,rfl,rfl⟩
    exact ⟨hp,hi,hu,rfl,rfl⟩
  · rintro ⟨hp,hi,hu,rfl,rfl⟩
    exact ⟨_,⟨hp,rfl⟩,(),hi,(),hu,rfl,rfl⟩

theorem handleSessionKeyUsage_eq_ok {sha256 : Bytes → H256} {key : InviteCodePubKey}
    {self account' : AccountInfo} {account message : String} {nonce : U128}
    {calldata : Calldata} :
    self.handleSessionKeyUsage sha256 account nonce calldata=.ok (message,account') ↔
      self.Accepts sha256 key calldata (.useSessionKey account nonce) ∧
      message="Session key is valid" ∧
      account'=self.after calldata (.useSessionKey account nonce) := by
  simp only [handleSessionKeyUsage,useSessionKey,Outcome.bind_eq_ok,Outcome.ensure_eq_ok,
    Outcome.fromOption_eq_ok,Outcome.pure_eq_ok,CheckSecp256k1.expect_eq_ok,Accepts,Signs,
    SessionKey.check_eq_ok,Prod.mk.injEq,after]
  constructor
  · rintro ⟨_,hi,blob,⟨ha,hb,hd⟩,txCtx,hc,_,hl,k,hk,_,hu,rfl,rfl⟩
    have hs : signer calldata=hex blob.publicKey.toList := by simp [signer,ha]
    rw [hs]
    exact ⟨⟨hi,⟨blob,ha,hb,hd⟩,hl,txCtx,k,hc,hk,hu⟩,rfl,rfl⟩
  · rintro ⟨⟨hi,⟨blob,ha,hb,hd⟩,hl,txCtx,k,hc,hk,hu⟩,rfl,rfl⟩
    have hs : signer calldata=hex blob.publicKey.toList := by simp [signer,ha]
    rw [hs] at hk ⊢
    exact ⟨(),hi,blob,⟨ha,hb,hd⟩,txCtx,hc,(),hl,k,hk,(),hu,rfl,rfl⟩

private theorem filter_shorter {key : String} (keys : List SessionKey) :
    (keys.filter (fun k => k.publicKey≠key)).length≠keys.length ↔
      ∃ k∈keys,k.publicKey=key := by
  rw [ne_eq,List.length_filter_eq_length_iff]
  simp

/-- The handler of an action succeeds exactly on the accounts that it accepts. -/
theorem applyAction_eq_ok {sha256 : Bytes → H256} {key : InviteCodePubKey}
    {self account' : AccountInfo} {action : WalletAction} {calldata : Calldata}
    {output : String} :
    self.applyAction sha256 key action calldata=.ok (output,account') ↔
      self.Accepts sha256 key calldata action ∧ output=message action ∧
      account'=self.after calldata action := by
  cases action with
  | registerIdentity account nonce salt authMethod inviteCode =>
    simp only [applyAction,Outcome.bind_eq_ok,checkForInviteCode_eq_ok,
      handleRegistration_eq_ok,Accepts,after]
    constructor
    · rintro ⟨_,⟨hs,hk⟩,hp,hi,hu,hm,ha⟩
      exact ⟨⟨hs,hk,hp,hi,hu⟩,hm,ha⟩
    · rintro ⟨⟨hs,hk,hp,hi,hu⟩,hm,ha⟩
      exact ⟨(),⟨hs,hk⟩,hp,hi,hu,hm,ha⟩
  | verifyIdentity account nonce =>
    simp only [applyAction,handleAuthenticatedAction,verifyIdentity,Outcome.bind_eq_ok,
      Outcome.ensure_eq_ok,Outcome.pure_eq_ok,AuthMethod.verify_eq_ok,Accepts,after,
      Prod.mk.injEq]
    constructor
    · rintro ⟨_,⟨hp,_⟩,_,hi,_,hn,rfl,rfl⟩
      exact ⟨⟨hp,hi,hn⟩,rfl,rfl⟩
    · rintro ⟨⟨hp,hi,hn⟩,rfl,rfl⟩
      exact ⟨_,⟨hp,rfl⟩,(),hi,(),hn,rfl,rfl⟩
  | addSessionKey account newKey expirationDate whitelist laneId =>
    simp only [applyAction,handleAuthenticatedAction,addSessionKey,Outcome.bind_eq_ok,
      Outcome.ensure_eq_ok,Outcome.pure_eq_ok,AuthMethod.verify_eq_ok,Accepts,after,
      Prod.mk.injEq]
    constructor
    · rintro ⟨_,⟨hp,_⟩,_,hi,_,hk,rfl,rfl⟩
      exact ⟨⟨hp,hi,hk⟩,rfl,rfl⟩
    · rintro ⟨⟨hp,hi,hk⟩,rfl,rfl⟩
      exact ⟨_,⟨hp,rfl⟩,(),hi,(),hk,rfl,rfl⟩
  | removeSessionKey account oldKey =>
    simp only [applyAction,handleAuthenticatedAction,removeSessionKey,Outcome.bind_eq_ok,
      Outcome.ensure_eq_ok,Outcome.pure_eq_ok,AuthMethod.verify_eq_ok,Accepts,after,
      Prod.mk.injEq,filter_shorter]
    constructor
    · rintro ⟨_,⟨hp,_⟩,_,hk,rfl,rfl⟩
      exact ⟨⟨hp,hk⟩,rfl,rfl⟩
    · rintro ⟨⟨hp,hk⟩,rfl,rfl⟩
      exact ⟨_,⟨hp,rfl⟩,(),hk,rfl,rfl⟩
  | useSessionKey account nonce => exact handleSessionKeyUsage_eq_ok
  | updateInviteCodePublicKey newKey smtRoot =>
    simp [applyAction,handleAuthenticatedAction,Outcome.bind_eq_ok,Accepts]

theorem verify_quiet (method : AuthMethod) (calldata : Calldata) :
    (method.verify calldata).Quiet := by
  cases method with
  | uninitialized => exact Outcome.Quiet.of_err
  | password hash =>
    refine Outcome.Quiet.bind Outcome.Quiet.fromOption ?_
    intro secret _
    refine Outcome.Quiet.bind Outcome.Quiet.ensure ?_
    intro _ _
    exact Outcome.Quiet.of_ok

theorem expect_quiet (sha256 : Bytes → H256) (calldata : Calldata) (data : Bytes) :
    (CheckSecp256k1.expect sha256 calldata data).Quiet := by
  refine Outcome.Quiet.bind Outcome.Quiet.fromOption ?_
  intro blob _
  refine Outcome.Quiet.bind Outcome.Quiet.fromOption ?_
  intro secp _
  refine Outcome.Quiet.bind Outcome.Quiet.ensure ?_
  intro _ _
  refine Outcome.Quiet.bind Outcome.Quiet.ensure ?_
  intro _ _
  exact Outcome.Quiet.of_ok

theorem checkForInviteCode_quiet (sha256 : Bytes → H256) (account inviteCode : String)
    (calldata : Calldata) (key : InviteCodePubKey) :
    (checkForInviteCode sha256 account inviteCode calldata key).Quiet := by
  refine Outcome.Quiet.bind (expect_quiet sha256 calldata _) ?_
  intro blob _
  exact Outcome.Quiet.ensure

theorem check_quiet (key : SessionKey) (calldata : Calldata) (txCtx : TxContext) :
    (key.check calldata txCtx).Quiet := by
  unfold SessionKey.check
  cases key.notWhitelisted calldata with
  | some blob => exact Outcome.Quiet.of_err
  | none =>
    refine Outcome.Quiet.bind Outcome.Quiet.ensure ?_
    intro _ _
    exact Outcome.Quiet.ensure

theorem handleRegistration_quiet (self : AccountInfo) (account : String) (nonce : U128)
    (authMethod : AuthMethod) (calldata : Calldata) :
    (self.handleRegistration account nonce authMethod calldata).Quiet := by
  refine Outcome.Quiet.bind (verify_quiet authMethod calldata) ?_
  intro _ _
  refine Outcome.Quiet.bind Outcome.Quiet.ensure ?_
  intro _ _
  refine Outcome.Quiet.bind Outcome.Quiet.ensure ?_
  intro _ _
  exact Outcome.Quiet.of_ok

theorem handleSessionKeyUsage_quiet (sha256 : Bytes → H256) (self : AccountInfo)
    (account : String) (nonce : U128) (calldata : Calldata) :
    (self.handleSessionKeyUsage sha256 account nonce calldata).Quiet := by
  refine Outcome.Quiet.bind Outcome.Quiet.ensure ?_
  intro _ _
  refine Outcome.Quiet.bind (expect_quiet sha256 calldata _) ?_
  intro blob _
  refine Outcome.Quiet.bind Outcome.Quiet.fromOption ?_
  intro txCtx _
  refine Outcome.Quiet.bind Outcome.Quiet.ensure ?_
  intro _ _
  refine Outcome.Quiet.bind Outcome.Quiet.fromOption ?_
  intro key _
  refine Outcome.Quiet.bind (check_quiet key calldata txCtx) ?_
  intro _ _
  exact Outcome.Quiet.of_ok

/-- No action on an account panics. -/
theorem applyAction_quiet {sha256 : Bytes → H256} {key : InviteCodePubKey} {name : String}
    {action : WalletAction} (self : AccountInfo) (calldata : Calldata)
    (hn : action.account?=some name) : (self.applyAction sha256 key action calldata).Quiet := by
  cases action with
  | registerIdentity account nonce salt authMethod inviteCode =>
    refine Outcome.Quiet.bind (checkForInviteCode_quiet sha256 account inviteCode calldata key) ?_
    intro _ _
    exact handleRegistration_quiet self account nonce authMethod calldata
  | verifyIdentity account nonce =>
    refine Outcome.Quiet.bind (verify_quiet self.authMethod calldata) ?_
    intro _ _
    refine Outcome.Quiet.bind Outcome.Quiet.ensure ?_
    intro _ _
    refine Outcome.Quiet.bind Outcome.Quiet.ensure ?_
    intro _ _
    exact Outcome.Quiet.of_ok
  | addSessionKey account newKey expirationDate whitelist laneId =>
    refine Outcome.Quiet.bind (verify_quiet self.authMethod calldata) ?_
    intro _ _
    refine Outcome.Quiet.bind Outcome.Quiet.ensure ?_
    intro _ _
    refine Outcome.Quiet.bind Outcome.Quiet.ensure ?_
    intro _ _
    exact Outcome.Quiet.of_ok
  | removeSessionKey account oldKey =>
    refine Outcome.Quiet.bind (verify_quiet self.authMethod calldata) ?_
    intro _ _
    refine Outcome.Quiet.bind Outcome.Quiet.ensure ?_
    intro _ _
    exact Outcome.Quiet.of_ok
  | useSessionKey account nonce =>
    exact handleSessionKeyUsage_quiet sha256 self account nonce calldata
  | updateInviteCodePublicKey newKey smtRoot => cases hn

end AccountInfo

end TruthSeeker.Wallet
