import TruthSeeker.Framework.Handler
import TruthSeeker.Wallet.Agreement

namespace TruthSeeker.WalletClient.Wallet

open TruthSeeker.Wallet Bytes Borsh Sdk SparseMerkle

/-! The executor as it works on the wallet in place, write by write. -/

section Steps
variable {Proof : Type} (S : Scheme H256 H256 H256 Proof) {sha256 : Bytes → H256}

/-- The action on the copy of the account. The salt is recorded even if the account refuses the
registration. -/
def runInPlace (accountInfo : AccountInfo) (calldata : Calldata) :
    WalletAction → Handler (Wallet sha256) (Except String (String × AccountInfo))
  | .registerIdentity account nonce salt authMethod inviteCode => do
    let self ← .read id
    .lift (checkForInviteCode sha256 account inviteCode calldata self.inviteCodePublicKey)
    let res ← .lift (Outcome.caught
      (accountInfo.handleRegistration account nonce authMethod calldata))
    .modify fun self => { self with salts := self.salts.insert account salt }
    return res
  | .useSessionKey account nonce =>
    .lift (Outcome.caught (accountInfo.handleSessionKeyUsage sha256 account nonce calldata))
  | action => .lift (Outcome.caught (accountInfo.handleAuthenticatedAction action calldata))

def actualHandleInPlace (quote : String → String) (calldata : Calldata) :
    Handler (Wallet sha256) HyleOutput := do
  let initialStateCommitment ← .read (getStateCommitment S)
  let (action,execCtx) ← .lift (parseRawCalldata WalletAction calldata)
  match action with
  | .updateInviteCodePublicKey inviteCodePublicKey _ => do
    let self ← .read id
    .lift (Outcome.ensure (self.inviteCodePublicKey=defaultInviteCodePublicKey)
      "Invite code public key already set")
    .modify fun self => { self with inviteCodePublicKey := inviteCodePublicKey }
    let nextStateCommitment ← .read (getStateCommitment S)
    return asHyleOutput quote initialStateCommitment nextStateCommitment calldata
      (.ok (utf8 "Updated public key",execCtx,[]))
  | action => do
    let acc ← .lift (Outcome.fromOption action.account?
      (.panic "internal error: entered unreachable code"))
    let accountInfo ← .read fun self => self.accountInfo acc
    let result ← runInPlace accountInfo calldata action
    let accountInfo := match result with
      | .ok (_,accountInfo) => accountInfo
      | .error _ => accountInfo
    let self ← .read id
    let smt ← .lift (Outcome.fromOption
      (self.smt.update (AccountInfo.computeKey sha256 acc) accountInfo)
      (.panic "called `Result::unwrap()` on an `Err` value"))
    .modify fun self => { self with smt := smt }
    let nextStateCommitment ← .read (getStateCommitment S)
    return asHyleOutput quote initialStateCommitment nextStateCommitment calldata
      (result.map fun p => (utf8 p.1,execCtx,[]))

def handleInPlace (quote : String → String) (calldata : Calldata) :
    Handler (Wallet sha256) HyleOutput :=
  .context "Failed to handle Wallet action" (actualHandleInPlace S quote calldata)

end Steps

section Refines
variable {Proof : Type} {S : Scheme H256 H256 H256 Proof} {sha256 : Bytes → H256}
  {quote : String → String} {calldata : Calldata} {self : Wallet sha256} {acc : String}
  {action : WalletAction} {ctx : ExecutionContext}

/-- The writes of an action, next to what it returns. -/
theorem runInPlace_eq (hn : action.account?=some acc) :
    runInPlace (self.accountInfo acc) calldata action self=
      match self.result acc action calldata with
      | .ok (res,salts) => (.ok res,{ self with salts := salts })
      | .error fault => (.error fault,self) := by
  cases action with
  | registerIdentity account nonce salt authMethod inviteCode =>
    obtain rfl := Option.some.inj hn
    cases hi : checkForInviteCode sha256 account inviteCode calldata self.inviteCodePublicKey with
    | error fault =>
      simp only [runInPlace,result,Handler.bind_apply,Handler.read,Handler.lift,id,hi]
      rfl
    | ok u =>
      cases hr : Outcome.caught
          ((self.accountInfo account).handleRegistration account nonce authMethod calldata) with
      | error fault =>
        simp only [runInPlace,result,Handler.bind_apply,Handler.read,Handler.lift,id,hi,hr]
        rfl
      | ok res =>
        simp only [runInPlace,result,Handler.bind_apply,Handler.read,Handler.lift,id,hi,hr]
        rfl
  | updateInviteCodePublicKey key root => cases hn
  | useSessionKey account nonce =>
    obtain rfl := Option.some.inj hn
    simp only [runInPlace,result,Handler.lift]
    cases Outcome.caught
      ((self.accountInfo account).handleSessionKeyUsage sha256 account nonce calldata) <;> rfl
  | _ =>
    obtain rfl := Option.some.inj hn
    simp only [runInPlace,result,Handler.lift]
    cases Outcome.caught ((self.accountInfo _).handleAuthenticatedAction _ calldata) <;> rfl

/-- The account that is written back. -/
def written (accountInfo : AccountInfo) (result : Except String (String × AccountInfo)) :
    AccountInfo :=
  match result with
  | .ok (_,accountInfo) => accountInfo
  | .error _ => accountInfo

theorem actualHandleInPlace_account
    (hp : parseRawCalldata WalletAction calldata=.ok (action,ctx))
    (hn : action.account?=some acc) :
    actualHandleInPlace S quote calldata self=
      match self.result acc action calldata with
      | .error fault => (.error fault,self)
      | .ok (res,salts) =>
          match self.smt.update (AccountInfo.computeKey sha256 acc)
              (written (self.accountInfo acc) res) with
          | none => (Outcome.panic "called `Result::unwrap()` on an `Err` value",
              { self with salts := salts })
          | some smt =>
              let fresh : Wallet sha256 := { self with smt := smt, salts := salts }
              (.ok (asHyleOutput quote (self.getStateCommitment S) (fresh.getStateCommitment S)
                calldata (res.map fun p => (utf8 p.1,ctx,[]))),fresh) := by
  have ran : runInPlace (self.accountInfo acc) calldata action self=_ := runInPlace_eq hn
  cases action with
  | updateInviteCodePublicKey key root => cases hn
  | _ =>
    obtain rfl := Option.some.inj hn
    simp only [actualHandleInPlace,Handler.bind_apply,Handler.read,Handler.lift,hp,
      WalletAction.account?,Outcome.fromOption,ran]
    cases self.result _ _ calldata with
    | error fault => rfl
    | ok p =>
      obtain ⟨res,salts⟩ := p
      dsimp only [id]
      cases res with
      | error m =>
        dsimp only [written]
        cases self.smt.update _ _ <;> rfl
      | ok p =>
        dsimp only [written]
        cases self.smt.update _ _ <;> rfl

/-- The executor in place and the one that returns its wallet stop at the same faults. One that
is returned comes before the first write. -/
def InStep (handled : Outcome (HyleOutput × Wallet sha256)) (self : Wallet sha256)
    (inPlace : Outcome HyleOutput × Wallet sha256) : Prop :=
  match handled with
  | .ok (output,fresh) => inPlace=(.ok output,fresh)
  | .error (.err m) => inPlace=(.error (.err m),self)
  | .error (.panic m) => inPlace.1=.error (.panic m)

theorem inStep_of_error (fault : Fault) : InStep (.error fault) self (.error fault,self) := by
  cases fault <;> rfl

theorem actualHandleInPlace_inStep :
    InStep (self.actualHandle S quote calldata) self
      (actualHandleInPlace S quote calldata self) := by
  cases hp : parseRawCalldata WalletAction calldata with
  | error fault =>
    simp only [actualHandle,actualHandleInPlace,Handler.bind_apply,Handler.read,Handler.lift,hp]
    exact inStep_of_error fault
  | ok parsed =>
    obtain ⟨action,ctx⟩ := parsed
    cases hn : action.account? with
    | none =>
      cases action with
      | updateInviteCodePublicKey key root =>
        simp only [actualHandle,actualHandleInPlace,Handler.bind_apply,Handler.read,
          Handler.lift,Handler.modify,hp,id,Outcome.ensure]
        by_cases unset : self.inviteCodePublicKey=defaultInviteCodePublicKey
        · simp only [if_pos unset]
          rfl
        · simp only [if_neg unset]
          rfl
      | _ => cases hn
    | some acc =>
      rw [actualHandleInPlace_account hp hn,actualHandle_account hp hn]
      cases self.result acc action calldata with
      | error fault => exact inStep_of_error fault
      | ok p =>
        obtain ⟨res,salts⟩ := p
        show InStep (Except.bind (Outcome.fromOption (self.smt.update _ (written _ res)) _) _) _ _
        dsimp only
        cases self.smt.update (AccountInfo.computeKey sha256 acc)
            (written (self.accountInfo acc) res) with
        | none => rfl
        | some smt => rfl

theorem handleInPlace_inStep :
    InStep (self.handle S quote calldata) self (handleInPlace S quote calldata self) := by
  have actual : InStep (self.actualHandle S quote calldata) self
      (actualHandleInPlace S quote calldata self) := actualHandleInPlace_inStep
  unfold handle handleInPlace Handler.context
  cases hh : self.actualHandle S quote calldata with
  | ok handled =>
    rw [hh] at actual
    have went : actualHandleInPlace S quote calldata self=(.ok handled.1,handled.2) := actual
    rw [went]
    rfl
  | error fault =>
    rw [hh] at actual
    cases fault with
    | err m =>
      have stopped : actualHandleInPlace S quote calldata self=(.error (.err m),self) := actual
      rw [stopped]
      rfl
    | panic m =>
      have stopped : (actualHandleInPlace S quote calldata self).1=.error (.panic m) := actual
      generalize actualHandleInPlace S quote calldata self=handled at stopped
      obtain ⟨result,fresh⟩ := handled
      obtain rfl : result=.error (.panic m) := stopped
      rfl

theorem handle_of_inPlace_ok {output : HyleOutput} {fresh : Wallet sha256}
    (h : handleInPlace S quote calldata self=(.ok output,fresh)) :
    self.handle S quote calldata=.ok (output,fresh) := by
  have step : InStep (self.handle S quote calldata) self (.ok output,fresh) :=
    h ▸ handleInPlace_inStep
  generalize self.handle S quote calldata=handled at step ⊢
  rcases handled with (m | m) | ⟨other,after⟩
  · cases step
  · cases step
  · obtain ⟨same,rfl⟩ := Prod.mk.inj step
    rw [Except.ok.inj same]

theorem inPlace_of_handle {output : HyleOutput} {fresh : Wallet sha256}
    (h : self.handle S quote calldata=.ok (output,fresh)) :
    handleInPlace S quote calldata self=(.ok output,fresh) := by
  have step : InStep (self.handle S quote calldata) self
      (handleInPlace S quote calldata self) := handleInPlace_inStep
  rw [h] at step
  exact step

/-- An error is returned before anything is written. -/
theorem state_of_inPlace_err {m : String} {fresh : Wallet sha256}
    (h : handleInPlace S quote calldata self=(.error (.err m),fresh)) : fresh=self := by
  have step : InStep (self.handle S quote calldata) self (.error (.err m),fresh) :=
    h ▸ handleInPlace_inStep
  generalize self.handle S quote calldata=handled at step
  rcases handled with (other | other) | ⟨output,after⟩
  · exact (Prod.mk.inj step).2
  · cases step
  · cases step

end Refines

end TruthSeeker.WalletClient.Wallet

namespace TruthSeeker.WalletClient.Wallet

open TruthSeeker.Wallet Bytes Borsh Sdk SparseMerkle

section Failures
variable {Proof : Type} (S : Scheme H256 H256 H256 Proof) {sha256 : Bytes → H256}
  (quote : String → String) (wallet : Wallet sha256) (calldata : Calldata)

/-- An error or a failed output leaves the accounts, the invite key and the salts. -/
def FailsCleanly : Prop :=
  ∀ result fresh,handleInPlace S quote calldata wallet=(result,fresh) →
    (∃ m,result=.error (.err m)) ∨ (∃ output,result=.ok output ∧ output.success=false) →
    fresh.smt=wallet.smt ∧ fresh.inviteCodePublicKey=wallet.inviteCodePublicKey ∧
      fresh.salts=wallet.salts

/-- The action of the calldata is on the account and reaches it, but the account refuses it. -/
def Refused (action : WalletAction) (acc : String) : Prop :=
  (∃ ctx,parseRawCalldata WalletAction calldata=.ok (action,ctx)) ∧
    action.account?=some acc ∧ wallet.Invited calldata action ∧
    ¬(wallet.accountInfo acc).Accepts sha256 wallet.inviteCodePublicKey calldata action

/-- The salt of a registration is the one that is recorded. -/
def Salted : WalletAction → Prop
  | .registerIdentity account _ salt _ _ => wallet.salts[account]?=some salt
  | _ => True

variable {S quote wallet calldata} {acc : String} {action : WalletAction}

/-- The supplied account can be written back, whatever name it had. -/
theorem exists_update_accountInfo (hl : (utf8 acc).length<2^32) :
    ∃ smt,wallet.smt.update (AccountInfo.computeKey sha256 acc) (wallet.accountInfo acc)=
      some smt := by
  cases hv : wallet.smt.values[AccountInfo.computeKey sha256 acc]? with
  | none =>
    refine ⟨wallet.smt,Store.update_absent hv ?_⟩
    rw [accountInfo_of_none hv,AccountInfo.toH256_uninitialized rfl]
    rfl
  | some a =>
    obtain ⟨l,leaf,nonzero⟩ := wallet.smt.stored _ a hv
    have initialised : a.authMethod≠.uninitialized := by
      intro hu
      rw [AccountInfo.toH256_uninitialized hu] at leaf
      exact nonzero (Option.some.inj leaf).symm
    obtain ⟨bytes,stored⟩ : ∃ bytes,ser (AccountInfo.layout.fields a)=some bytes := by
      cases hx : a.toH256 sha256 with
      | error e => simp [hx,Except.toOption] at leaf
      | ok m =>
        obtain ⟨bytes,stored,_⟩ := (AccountInfo.toH256_initialized initialised).mp hx
        exact ⟨bytes,stored⟩
    obtain ⟨_,rest⟩ := exists_ser_prod.mp ⟨bytes,stored⟩
    obtain ⟨bytes,renamed⟩ : ∃ bytes,ser ({ a with identity := acc } : AccountInfo)=some bytes :=
      exists_ser_prod.mpr ⟨⟨_,ser_string hl⟩,rest⟩
    have leaves : (wallet.accountInfo acc).toH256 sha256=.ok (sha256 bytes) := by
      have same : wallet.accountInfo acc={ a with identity := acc } := by simp [accountInfo,hv]
      have kept : (wallet.accountInfo acc).authMethod≠.uninitialized := same ▸ initialised
      exact (AccountInfo.toH256_initialized kept).mpr ⟨bytes,same ▸ renamed,rfl⟩
    refine (Store.exists_update _ _ _).mpr ⟨sha256 bytes,?_⟩
    rw [leaves]
    rfl

/-- Writing the supplied account back changes nothing if it had the name. -/
theorem update_accountInfo_iff (wallet : Wallet sha256) (acc : String) :
    wallet.smt.update (AccountInfo.computeKey sha256 acc) (wallet.accountInfo acc)=
      some wallet.smt ↔ wallet.Named acc := by
  refine ⟨?_,update_accountInfo⟩
  intro h a ha
  obtain ⟨l,hl,_⟩ := Store.update_eq_some.mp h
  have kept := Store.getElem?_update_self h hl
  rw [ha] at kept
  split_ifs at kept
  rw [Option.some.inj kept]
  rfl

theorem saltsAfter_eq_iff : wallet.saltsAfter action=wallet.salts ↔ wallet.Salted action := by
  cases action with
  | registerIdentity account nonce salt authMethod inviteCode =>
    constructor
    · intro h
      have found := congrArg (fun salts => salts[account]?) h
      have inserted : (wallet.salts.insert account salt)[account]?=some salt := by simp
      exact found.symm.trans inserted
    · intro h
      apply Std.ExtTreeMap.ext_getElem?
      intro name
      rw [saltsAfter,Std.ExtTreeMap.getElem?_insert]
      split_ifs with same
      · rw [← Std.LawfulEqOrd.eq_of_compare same]
        exact h.symm
      · rfl
  | _ => exact iff_of_true rfl trivial

theorem handle_of_refused {smt : AccountSMT sha256}
    (h : wallet.Refused calldata action acc)
    (hs : wallet.smt.update (AccountInfo.computeKey sha256 acc) (wallet.accountInfo acc)=
      some smt) :
    ∃ m,wallet.handle S quote calldata=
      .ok (fail calldata (wallet.getStateCommitment S) m,
        { wallet with smt := smt, salts := wallet.saltsAfter action }) := by
  obtain ⟨⟨ctx,hp⟩,hn,hi,hr⟩ := h
  rcases ((wallet.accountInfo acc).applyAction_quiet calldata hn).cases with
    ⟨⟨res,account⟩,ha⟩ | ⟨m,ha⟩
  · exact absurd (AccountInfo.applyAction_eq_ok.mp ha).1 hr
  · refine ⟨m,handle_eq_ok.mpr ?_⟩
    rw [actualHandle_account hp hn,result_of_invited hn hi,ha]
    simp only [Outcome.caught,bind,Except.bind,pure,Except.pure,hs,Outcome.fromOption,Except.map]
    rfl

/-- A failed output is that of an action which the account refuses. -/
theorem refused_of_failure {output : HyleOutput} {fresh : Wallet sha256}
    (hh : wallet.handle S quote calldata=.ok (output,fresh)) (failed : output.success=false) :
    ∃ action acc,wallet.Refused calldata action acc ∧
      wallet.smt.update (AccountInfo.computeKey sha256 acc) (wallet.accountInfo acc)=
        some fresh.smt := by
  have handled := handle_eq_ok.mp hh
  cases hp : parseRawCalldata WalletAction calldata with
  | error e =>
    simp only [actualHandle,hp,bind,Except.bind] at handled
    cases handled
  | ok parsed =>
    obtain ⟨action,ctx⟩ := parsed
    cases hn : action.account? with
    | none =>
      cases action with
      | updateInviteCodePublicKey key smtRoot =>
        obtain ⟨_,same⟩ := (actualHandle_update hp).mp handled
        rw [(Prod.mk.inj same).1] at failed
        simp [asHyleOutput,calleesBlobs_of_parseRawCalldata hp] at failed
      | _ => cases hn
    | some acc =>
      obtain ⟨invited,⟨_,_,success⟩|⟨refused,kept,_⟩⟩ := handled_cases hp hn handled
      · rw [success] at failed
        cases failed
      · exact ⟨action,acc,⟨⟨ctx,hp⟩,hn,invited,refused⟩,kept⟩

theorem Refused.length_lt (h : wallet.Refused calldata action acc) : (utf8 acc).length<2^32 := by
  obtain ⟨⟨ctx,hp⟩,hn,_⟩ := h
  obtain ⟨blob,_,read,_⟩ := parseRawCalldata_eq_ok.mp hp
  exact WalletAction.length_account read hn

theorem FailsCleanly.of_refused (h : FailsCleanly S quote wallet calldata)
    (hr : wallet.Refused calldata action acc) : wallet.Named acc ∧ wallet.Salted action := by
  obtain ⟨smt,written⟩ := exists_update_accountInfo hr.length_lt
  obtain ⟨m,handled⟩ : ∃ m,wallet.handle S quote calldata=
      .ok (fail calldata (wallet.getStateCommitment S) m,_) := handle_of_refused hr written
  obtain ⟨smtKept,_,saltsKept⟩ :=
    h _ _ (inPlace_of_handle handled) (Or.inr ⟨_,rfl,rfl⟩)
  refine ⟨?_,saltsAfter_eq_iff.mp saltsKept⟩
  rw [← update_accountInfo_iff,written]
  exact congrArg some smtKept

end Failures

variable {Proof : Type} {S : Scheme H256 H256 H256 Proof} {sha256 : Bytes → H256}
  {quote : String → String}

/-- What a failure may leave behind: the salt of a refused registration, and the name of the
account that was looked up. -/
theorem failsCleanly_iff (wallet : Wallet sha256) (calldata : Calldata) :
    FailsCleanly S quote wallet calldata ↔
      ∀ action acc,wallet.Refused calldata action acc → wallet.Named acc ∧ wallet.Salted action := by
  constructor
  · intro clean action acc refused
    exact clean.of_refused refused
  · intro kept result fresh handled failed
    obtain ⟨m,rfl⟩|⟨output,rfl,unsuccessful⟩ := failed
    · rw [state_of_inPlace_err handled]
      exact ⟨rfl,rfl,rfl⟩
    · have went := handle_of_inPlace_ok handled
      obtain ⟨action,acc,refused,written⟩ := refused_of_failure went unsuccessful
      obtain ⟨named,salted⟩ := kept action acc refused
      obtain ⟨m,same⟩ : ∃ m,wallet.handle S quote calldata=
          .ok (fail calldata (wallet.getStateCommitment S) m,_) :=
        handle_of_refused refused written
      rw [went] at same
      have state := (Prod.mk.inj (Except.ok.inj same)).2
      rw [update_accountInfo named] at written
      rw [state]
      exact ⟨(Option.some.inj written).symm,rfl,saltsAfter_eq_iff.mpr salted⟩

namespace Unproven

open WalletZkView.Registration (tree)

/-- The registration of `mallory` with the invitation but without the password. -/
def calldata : Calldata := { WalletZkView.Registration.calldata with
  blobs := WalletZkView.Registration.calldata.blobs.take 2 }

theorem refused : FirstBlobs.wallet.Refused calldata WalletZkView.Registration.action "mallory" := by
  refine ⟨⟨ExecutionContext.new "mallory@wallet" "wallet",by decide +kernel⟩,rfl,?_,?_⟩
  · show checkForInviteCode _ _ _ _ _=.ok ()
    decide +kernel
  · rintro ⟨_,_,⟨secret,checked,_⟩,_⟩
    have missing : AuthMethod.checkedSecret calldata=none := by decide +kernel
    rw [missing] at checked
    cases checked

end Unproven

/-- The salt of an account that nobody registered is recorded. -/
theorem not_failsCleanly_unproven : ¬FailsCleanly WalletZkView.Registration.tree FirstBlobs.quote
    FirstBlobs.wallet Unproven.calldata := by
  intro clean
  have salted : FirstBlobs.wallet.salts["mallory"]?=some "salt" :=
    (clean.of_refused Unproven.refused).2
  have empty : FirstBlobs.wallet.salts["mallory"]?=none := Std.ExtTreeMap.getElem?_empty
  rw [empty] at salted
  cases salted

end TruthSeeker.WalletClient.Wallet
