import TruthSeeker.Wallet.Executor
import TruthSeeker.Wallet.InviteKey

namespace TruthSeeker.WalletClient.Wallet

open TruthSeeker.Wallet Bytes Borsh Sdk SparseMerkle

section Accounts
variable {sha256 : Bytes → H256} {self : Wallet sha256} {acc : String}

/-- The account under the key of this name bears the name. -/
def Named (self : Wallet sha256) (acc : String) : Prop :=
  ∀ a,self.smt.values[AccountInfo.computeKey sha256 acc]?=some a → a.identity=acc

@[simp] theorem accountInfo_identity (self : Wallet sha256) (acc : String) :
    (self.accountInfo acc).identity=acc := rfl

theorem accountInfo_of_some (named : self.Named acc) {a : AccountInfo}
    (h : self.smt.values[AccountInfo.computeKey sha256 acc]?=some a) :
    self.accountInfo acc=a := by
  simp only [accountInfo,h,Option.getD_some]
  rw [← named a h]

theorem accountInfo_of_none
    (h : self.smt.values[AccountInfo.computeKey sha256 acc]?=none) :
    self.accountInfo acc={ AccountInfo.default with identity := acc } := by
  simp [accountInfo,h]

/-- The supplied account has the leaf that the tree holds. -/
theorem accountInfo_toH256 (named : self.Named acc) :
    (self.accountInfo acc).toH256 sha256=
      .ok (self.smt.leaf (AccountInfo.computeKey sha256 acc)) := by
  cases hv : self.smt.values[AccountInfo.computeKey sha256 acc]? with
  | none =>
    rw [accountInfo_of_none hv,AccountInfo.toH256_uninitialized rfl]
    simp [Store.leaf,hv]
  | some a =>
    obtain ⟨l,hl,_⟩ := self.smt.stored _ a hv
    rw [accountInfo_of_some named hv,Store.leaf_of_some hv hl]
    cases hx : a.toH256 sha256 with
    | error e => simp [hx,Except.toOption] at hl
    | ok m => simpa [hx,Except.toOption] using hl

/-- Writing the supplied account back changes nothing. -/
theorem update_accountInfo (named : self.Named acc) :
    self.smt.update (AccountInfo.computeKey sha256 acc) (self.accountInfo acc)=
      some self.smt := by
  cases hv : self.smt.values[AccountInfo.computeKey sha256 acc]? with
  | none =>
    apply Store.update_absent hv
    rw [accountInfo_of_none hv,AccountInfo.toH256_uninitialized rfl]
    rfl
  | some a =>
    rw [accountInfo_of_some named hv]
    exact Store.update_stored hv

end Accounts

section Results
variable {Proof : Type} {S : Scheme H256 H256 H256 Proof} {sha256 : Bytes → H256}
  {quote : String → String} {self : Wallet sha256} {acc : String} {action : WalletAction}
  {calldata : Calldata} {ctx : ExecutionContext}

/-- The invitation of a registration is valid. Other actions need none. -/
def Invited (self : Wallet sha256) (calldata : Calldata) : WalletAction → Prop
  | .registerIdentity account _ _ _ inviteCode =>
      checkForInviteCode sha256 account inviteCode calldata self.inviteCodePublicKey=.ok ()
  | _ => True

def saltsAfter (self : Wallet sha256) : WalletAction → Std.ExtTreeMap String String
  | .registerIdentity account _ salt _ _ => self.salts.insert account salt
  | _ => self.salts

theorem result_of_invited (hn : action.account?=some acc) (hi : self.Invited calldata action) :
    self.result acc action calldata=(do
      let res ← Outcome.caught ((self.accountInfo acc).applyAction sha256
        self.inviteCodePublicKey action calldata)
      return (res,self.saltsAfter action)) := by
  cases action with
  | registerIdentity account nonce salt authMethod inviteCode =>
    have hc : checkForInviteCode sha256 account inviteCode calldata
      self.inviteCodePublicKey=.ok () := hi
    simp only [result,AccountInfo.applyAction,hc,saltsAfter,bind,Except.bind]
  | updateInviteCodePublicKey key root => cases hn
  | _ => rfl

theorem result_of_uninvited (hi : ¬self.Invited calldata action) :
    ∃ e,self.result acc action calldata=.error e := by
  cases action with
  | registerIdentity account nonce salt authMethod inviteCode =>
    cases hc : checkForInviteCode sha256 account inviteCode calldata
        self.inviteCodePublicKey with
    | ok u => exact absurd hc hi
    | error e =>
      refine ⟨e,?_⟩
      simp only [result,hc,bind,Except.bind]
  | _ => exact absurd trivial hi

/-- A registration without a valid invitation is an error of the handler as well. -/
theorem applyAction_of_uninvited (account : AccountInfo)
    (hi : ¬self.Invited calldata action) :
    ∃ m,account.applyAction sha256 self.inviteCodePublicKey action calldata=
      .error (.err m) := by
  cases action with
  | registerIdentity account nonce salt authMethod inviteCode =>
    rcases (AccountInfo.checkForInviteCode_quiet sha256 account inviteCode calldata
      self.inviteCodePublicKey).cases with ⟨u,hc⟩ | ⟨m,hc⟩
    · exact absurd hc hi
    · refine ⟨m,?_⟩
      simp only [AccountInfo.applyAction,hc,bind,Except.bind]
  | _ => exact absurd trivial hi

theorem actualHandle_account (hp : parseRawCalldata WalletAction calldata=.ok (action,ctx))
    (hn : action.account?=some acc) :
    self.actualHandle S quote calldata=(do
      let (result,salts) ← self.result acc action calldata
      let accountInfo := match result with
        | .ok (_,accountInfo) => accountInfo
        | .error _ => self.accountInfo acc
      let smt ← Outcome.fromOption
        (self.smt.update (AccountInfo.computeKey sha256 acc) accountInfo)
        (.panic "called `Result::unwrap()` on an `Err` value")
      let fresh : Wallet sha256 := { self with smt := smt, salts := salts }
      return (asHyleOutput quote (self.getStateCommitment S) (fresh.getStateCommitment S)
        calldata (result.map (fun p => (utf8 p.1,ctx,[]))),fresh)) := by
  simp only [actualHandle,hp]
  cases action with
  | updateInviteCodePublicKey key root => cases hn
  | _ =>
    obtain rfl := Option.some.inj hn
    rfl

/-- A refused action leaves the accounts as they were. -/
theorem actualHandle_of_err (hp : parseRawCalldata WalletAction calldata=.ok (action,ctx))
    (hn : action.account?=some acc) (named : self.Named acc)
    (hi : self.Invited calldata action) {m : String}
    (ha : (self.accountInfo acc).applyAction sha256 self.inviteCodePublicKey action calldata=
      .error (.err m)) :
    self.actualHandle S quote calldata=.ok (fail calldata (self.getStateCommitment S) m,
      { self with salts := self.saltsAfter action }) := by
  rw [actualHandle_account hp hn,result_of_invited hn hi,ha]
  simp only [Outcome.caught,bind,Except.bind,pure,Except.pure,update_accountInfo named,
    Outcome.fromOption,Except.map]
  rfl

/-- An accepted action writes the account that it leaves. -/
theorem actualHandle_of_ok (hp : parseRawCalldata WalletAction calldata=.ok (action,ctx))
    (hn : action.account?=some acc) {res : String} {a : AccountInfo}
    (ha : (self.accountInfo acc).applyAction sha256 self.inviteCodePublicKey action calldata=
      .ok (res,a)) {smt : AccountSMT sha256}
    (hs : self.smt.update (AccountInfo.computeKey sha256 acc) a=some smt) :
    self.actualHandle S quote calldata=
      .ok (asHyleOutput quote (self.getStateCommitment S)
        (TruthSeeker.Wallet.getStateCommitment sha256 (S.root smt.leaf)
          self.inviteCodePublicKey) calldata (.ok (utf8 res,ctx,[])),
        { self with smt := smt, salts := self.saltsAfter action }) := by
  have hi : self.Invited calldata action := by
    by_contra h
    obtain ⟨m,hm⟩ := applyAction_of_uninvited (self.accountInfo acc) h
    rw [ha] at hm
    cases hm
  rw [actualHandle_account hp hn,result_of_invited hn hi,ha]
  simp only [Outcome.caught,bind,Except.bind,pure,Except.pure,hs,Outcome.fromOption,Except.map]
  rfl

end Results

section Circuit
variable {Proof : Type} {S : Scheme H256 H256 H256 Proof} {sha256 : Bytes → H256}
  {prove : (H256 → H256) → List H256 → Proof} {self : Wallet sha256} {acc : String}
  {action : WalletAction} {calldata : Calldata} {ctx : ExecutionContext} {blob : Blob}

/-- The partial data that the executor builds for an account. -/
def supplied (prove : (H256 → H256) → List H256 → Proof) (self : Wallet sha256)
    (acc : String) : PartialWalletData Proof :=
  ⟨prove self.smt.leaf [AccountInfo.computeKey sha256 acc],self.accountInfo acc⟩

theorem zkView_account (hb : fromSlice WalletAction blob.data=some action)
    (hn : action.account?=some acc) :
    self.zkView S prove blob=
      ⟨self.getStateCommitment S,self.inviteCodePublicKey,[supplied prove self acc]⟩ := by
  simp only [zkView,hb,Option.bind_some,hn,supplied]

theorem zkView_without (hb : (fromSlice WalletAction blob.data).bind WalletAction.account?=none) :
    self.zkView S prove blob=⟨self.getStateCommitment S,self.inviteCodePublicKey,[]⟩ := by
  simp only [zkView,hb]

/-- On the supplied data the circuit checks nothing but the action, and its root is that
of the changed tree. -/
theorem transition_supplied (named : self.Named acc)
    (recovers : Recovers S prove self.smt.leaf [AccountInfo.computeKey sha256 acc]) :
    WalletZkView.transition S sha256 (self.getStateCommitment S) self.inviteCodePublicKey
        (supplied prove self acc) action calldata=(do
      let (res,account) ← (self.accountInfo acc).applyAction sha256 self.inviteCodePublicKey
        action calldata
      let leaf ← account.toH256 sha256
      return (res,TruthSeeker.Wallet.getStateCommitment sha256
        (S.root (WalletZkView.changed self.smt acc leaf)) self.inviteCodePublicKey)) := by
  have hc := recovers.current
  have hn := recovers.single
  simp only [WalletZkView.transition,supplied,accountInfo_identity,accountInfo_toH256 named,hc,
    verify_computed hc,hn,Outcome.fromExcept,getStateCommitment,Outcome.panicUnless,if_true,
    bind,Except.bind,WalletZkView.changed]

/-- The supplied account can be written. -/
theorem exists_ser_accountInfo (named : self.Named acc) (hl : (utf8 acc).length<2^32) :
    ∃ bs,Borsh.ser (self.accountInfo acc)=some bs := by
  cases hv : self.smt.values[AccountInfo.computeKey sha256 acc]? with
  | none =>
    rw [accountInfo_of_none hv]
    exact ⟨_,ser_prod (ser_string hl) (ser_prod rfl (ser_prod rfl rfl))⟩
  | some a =>
    rw [accountInfo_of_some named hv]
    obtain ⟨l,hl,hz⟩ := self.smt.stored _ a hv
    by_cases hu : a.authMethod=.uninitialized
    · rw [AccountInfo.toH256_uninitialized hu] at hl
      exact absurd (Option.some.inj hl).symm hz
    · cases hx : a.toH256 sha256 with
      | error e => simp [hx,Except.toOption] at hl
      | ok m =>
        obtain ⟨bs,hs,_⟩ := (AccountInfo.toH256_initialized hu).mp hx
        exact ⟨bs,hs⟩

theorem exists_ser_commitment (sha256 : Bytes → H256) (root : H256) (key : InviteCodePubKey) :
    ∃ bs,Borsh.ser (TruthSeeker.Wallet.getStateCommitment sha256 root key)=some bs := by
  refine ⟨ofNatLE 4 32++TruthSeeker.Wallet.getStateCommitment sha256 root key,?_⟩
  have hl : (TruthSeeker.Wallet.getStateCommitment sha256 root key).length=32 :=
    (sha256 _).length_toList
  show (if _<2^32 then (serItems _).map _ else none)=_
  rw [hl,serItems_bytes]
  rfl

variable [Borsh Proof]

/-- The view without partial data can be written. -/
theorem exists_ser_without (S : Scheme H256 H256 H256 Proof) (self : Wallet sha256) :
    ∃ bs,Borsh.ser (⟨self.getStateCommitment S,self.inviteCodePublicKey,[]⟩ :
      WalletZkView Proof)=some bs := by
  obtain ⟨xs,hx⟩ := exists_ser_commitment sha256 (S.root self.smt.leaf)
    self.inviteCodePublicKey
  exact ⟨_,ser_prod hx (ser_prod rfl rfl)⟩

theorem exists_ser_supplied (named : self.Named acc) (hl : (utf8 acc).length<2^32)
    (hs : ∃ bs,Borsh.ser (prove self.smt.leaf [AccountInfo.computeKey sha256 acc])=some bs) :
    ∃ bs,Borsh.ser (⟨self.getStateCommitment S,self.inviteCodePublicKey,
      [supplied prove self acc]⟩ : WalletZkView Proof)=some bs := by
  obtain ⟨xs,hx⟩ := exists_ser_commitment sha256 (S.root self.smt.leaf)
    self.inviteCodePublicKey
  obtain ⟨ps,hp⟩ := hs
  obtain ⟨as,ha⟩ := exists_ser_accountInfo named hl
  have hd : Borsh.ser (supplied prove self acc)=some (ps++as) := ser_prod hp ha
  have hd' : Borsh.ser [supplied prove self acc]=some (ofNatLE 4 1++(ps++as++[])) := by
    show (if _<2^32 then (serItems _).map _ else none)=_
    simp [serItems,hd]
  exact ⟨_,ser_prod hx (ser_prod rfl hd')⟩

end Circuit

section Agreement
variable {Proof : Type} (S : Scheme H256 H256 H256 Proof) {sha256 : Bytes → H256}
  (quote : String → String) (prove : (H256 → H256) → List H256 → Proof)
  (wallet : Wallet sha256) (calldata : Calldata) (blob : Blob)

/-- The executor gives the output that the circuit gives on the metadata of the executor,
and ends in its next state. -/
def Agrees [Borsh Proof] : Prop :=
  ∃ output wallet' metadata,wallet.handle S quote calldata=.ok (output,wallet') ∧
    wallet.buildCommitmentMetadata S prove blob=.ok metadata ∧
    Guest.execute (zkContract S sha256) quote metadata [calldata]=.ok [output] ∧
    wallet'.getStateCommitment S=output.nextState

/-- The account that the calldata names. -/
def Names (calldata : Calldata) (acc : String) : Prop :=
  ∃ action ctx,parseRawCalldata WalletAction calldata=.ok (action,ctx) ∧
    action.account?=some acc

/-- The proofs of the tree are complete and can be written, every account is stored under
the digest of its identity, and SHA-256 has no collision on the compared strings. -/
structure Trusted [Borsh Proof] : Prop where
  recovers : ∀ acc,Names calldata acc →
    Recovers S prove wallet.smt.leaf [AccountInfo.computeKey sha256 acc]
  written : ∀ acc,Names calldata acc →
    ∃ bs,Borsh.ser (prove wallet.smt.leaf [AccountInfo.computeKey sha256 acc])=some bs
  keyed : ∀ key a,wallet.smt.values[key]?=some a → AccountInfo.computeKey sha256 a.identity=key
  namesDiffer : ∀ acc a,Names calldata acc →
    wallet.smt.values[AccountInfo.computeKey sha256 acc]?=some a →
    Set.InjOn sha256 {utf8 acc,utf8 a.identity}
  rootsDiffer : ∀ key smtRoot ctx,
    parseRawCalldata WalletAction calldata=.ok (.updateInviteCodePublicKey key smtRoot,ctx) →
    Set.InjOn sha256 {smtRoot.toList++key.toList,(S.root wallet.smt.leaf).toList++key.toList}

/-- The blob is an action. One on an account is not a registration without invitation,
and the account that it leaves can be written; a new invite key is the first one and
comes with the root of the accounts. -/
def Follows : Prop :=
  ∃ action,fromSlice WalletAction blob.data=some action ∧
    match action with
    | .updateInviteCodePublicKey _ smtRoot =>
        wallet.inviteCodePublicKey=defaultInviteCodePublicKey ∧ smtRoot=S.root wallet.smt.leaf
    | action => wallet.Invited calldata action ∧ ∀ acc,action.account?=some acc →
        (wallet.accountInfo acc).Accepts sha256 wallet.inviteCodePublicKey calldata action →
        ∃ leaf,((wallet.accountInfo acc).after calldata action).toH256 sha256=.ok leaf

variable {S quote prove wallet calldata blob}

theorem Trusted.named [Borsh Proof] (trust : Trusted S prove wallet calldata) {acc : String}
    (h : Names calldata acc) : wallet.Named acc := by
  intro a ha
  have hk := trust.keyed _ a ha
  have hu := trust.namesDiffer acc a h ha (by simp) (by simp) hk
  exact utf8_injective hu

theorem handle_eq_ok {handled : HyleOutput × Wallet sha256} :
    wallet.handle S quote calldata=.ok handled ↔
      wallet.actualHandle S quote calldata=.ok handled := by
  unfold handle
  cases wallet.actualHandle S quote calldata with
  | ok p => rfl
  | error f =>
    cases f with
    | err m => simp [Outcome.err]
    | panic m => simp

theorem follows_account {action : WalletAction} {acc : String}
    (hb : fromSlice WalletAction blob.data=some action) (hn : action.account?=some acc) :
    Follows S wallet calldata blob ↔ wallet.Invited calldata action ∧
      ((wallet.accountInfo acc).Accepts sha256 wallet.inviteCodePublicKey calldata action →
        ∃ leaf,((wallet.accountInfo acc).after calldata action).toH256 sha256=.ok leaf) := by
  have hf : Follows S wallet calldata blob ↔ wallet.Invited calldata action ∧
      ∀ acc,action.account?=some acc →
        (wallet.accountInfo acc).Accepts sha256 wallet.inviteCodePublicKey calldata action →
        ∃ leaf,((wallet.accountInfo acc).after calldata action).toH256 sha256=.ok leaf := by
    simp only [Follows,hb,Option.some.injEq,exists_eq_left']
    cases action with
    | updateInviteCodePublicKey key root => cases hn
    | _ => rfl
  rw [hf,hn]
  simp

theorem follows_update {key : InviteCodePubKey} {smtRoot : H256}
    (hb : fromSlice WalletAction blob.data=some (.updateInviteCodePublicKey key smtRoot)) :
    Follows S wallet calldata blob ↔
      wallet.inviteCodePublicKey=defaultInviteCodePublicKey ∧ smtRoot=S.root wallet.smt.leaf := by
  simp only [Follows,hb,Option.some.injEq,exists_eq_left']

/-- What the circuit outputs for one blob on the view of the executor. -/
theorem execute_view [Borsh Proof] [LawfulBorsh Proof] {metadata : Bytes} {output : HyleOutput}
    (hm : wallet.buildCommitmentMetadata S prove blob=.ok metadata) :
    Guest.execute (zkContract S sha256) quote metadata [calldata]=.ok [output] ↔
      ∃ after next,Guest.turn (zkContract S sha256) quote (wallet.zkView S prove blob)
        (wallet.getStateCommitment S) calldata=.ok (output,after,next) := by
  rw [buildCommitmentMetadata,Outcome.fromOption_eq_ok] at hm
  rw [Guest.execute_started (fromSlice_ser hm) rfl,Guest.turns_single]
  rfl

theorem actualHandle_update {key : InviteCodePubKey} {smtRoot : H256} {ctx : ExecutionContext}
    (hp : parseRawCalldata WalletAction calldata=
      .ok (.updateInviteCodePublicKey key smtRoot,ctx))
    {handled : HyleOutput × Wallet sha256} :
    wallet.actualHandle S quote calldata=.ok handled ↔
      wallet.inviteCodePublicKey=defaultInviteCodePublicKey ∧
      handled=(asHyleOutput quote (wallet.getStateCommitment S)
        (TruthSeeker.Wallet.getStateCommitment sha256 (S.root wallet.smt.leaf) key) calldata
        (.ok (utf8 "Updated public key",ctx,[])),
        { wallet with inviteCodePublicKey := key }) := by
  simp only [actualHandle,hp,bind,Except.bind]
  by_cases hk : wallet.inviteCodePublicKey=defaultInviteCodePublicKey
  · simp only [Outcome.ensure,hk,if_true,true_and]
    exact ⟨fun h => (Except.ok.inj h).symm,fun h => congrArg Except.ok h.symm⟩
  · simp only [Outcome.ensure,hk,if_false,false_and,iff_false]
    intro h
    cases h

/-- The circuit commits to the root of the action, the executor to its own one. -/
theorem agrees_update [Borsh Proof] [LawfulBorsh Proof] {key : InviteCodePubKey}
    {smtRoot : H256} {ctx : ExecutionContext} (trust : Trusted S prove wallet calldata)
    (hp : parseRawCalldata WalletAction calldata=
      .ok (.updateInviteCodePublicKey key smtRoot,ctx))
    (hd : fromSlice WalletAction blob.data=some (.updateInviteCodePublicKey key smtRoot)) :
    Agrees S quote prove wallet calldata blob ↔
      wallet.inviteCodePublicKey=defaultInviteCodePublicKey ∧
        smtRoot=S.root wallet.smt.leaf := by
  have hcallees := calleesBlobs_of_parseRawCalldata hp
  have hview : wallet.zkView S prove blob=
      ⟨wallet.getStateCommitment S,wallet.inviteCodePublicKey,[]⟩ :=
    zkView_without (by simp [hd,WalletAction.account?])
  constructor
  · intro agrees
    obtain ⟨output,after,metadata,hh,hm,he,hs⟩ := agrees
    obtain ⟨hk,hf⟩ := (actualHandle_update hp).mp (handle_eq_ok.mp hh)
    obtain ⟨rfl,rfl⟩ := Prod.mk.inj hf
    obtain ⟨view,next,ht⟩ := (execute_view hm).mp he
    have hx : WalletZkView.execute S sha256 (wallet.zkView S prove blob) calldata=_ :=
      (WalletZkView.execute_update hp).mpr ⟨by rw [hview]; exact hk,rfl,rfl⟩
    rw [Guest.turn_of_ok (Z := zkContract S sha256) hx] at ht
    have ho := congrArg HyleOutput.nextState (Prod.mk.inj (Except.ok.inj ht)).1
    rw [asHyleOutput_nextState_eq_iff.mpr (Or.inl hcallees),
      asHyleOutput_nextState_eq_iff.mpr (Or.inl hcallees)] at ho
    refine ⟨hk,?_⟩
    exact WalletZkView.getStateCommitment_injective (trust.rootsDiffer key smtRoot ctx hp) (by simp)
      (by simp) ho
  · intro holds
    obtain ⟨hk,hr⟩ := holds
    obtain ⟨metadata,hm⟩ := exists_ser_without S wallet
    rw [← hview] at hm
    have hm : wallet.buildCommitmentMetadata S prove blob=.ok metadata := by
      rw [buildCommitmentMetadata,hm]
      rfl
    refine ⟨_,_,metadata,handle_eq_ok.mpr ((actualHandle_update hp).mpr ⟨hk,rfl⟩),hm,?_,
      (asHyleOutput_nextState_eq_iff.mpr (Or.inl hcallees)).symm⟩
    have hx : WalletZkView.execute S sha256 (wallet.zkView S prove blob) calldata=_ :=
      (WalletZkView.execute_update hp).mpr ⟨by rw [hview]; exact hk,rfl,rfl⟩
    subst hr
    exact (execute_view hm).mpr ⟨_,_,Guest.turn_of_ok (Z := zkContract S sha256) hx⟩

variable (S quote) in
/-- An accepted action whose account can be written gives one output on both sides. -/
theorem handle_of_accepts {action : WalletAction} {ctx : ExecutionContext} {acc : String}
    (hp : parseRawCalldata WalletAction calldata=.ok (action,ctx))
    (hn : action.account?=some acc)
    (haccepts : (wallet.accountInfo acc).Accepts sha256 wallet.inviteCodePublicKey calldata
      action) {leaf : H256}
    (hl : ((wallet.accountInfo acc).after calldata action).toH256 sha256=.ok leaf) :
    ∃ fresh : Wallet sha256,fresh.inviteCodePublicKey=wallet.inviteCodePublicKey ∧
      wallet.smt.update (AccountInfo.computeKey sha256 acc)
        ((wallet.accountInfo acc).after calldata action)=some fresh.smt ∧
      fresh.smt.leaf=WalletZkView.changed wallet.smt acc leaf ∧
      wallet.handle S quote calldata=.ok (asHyleOutput quote (wallet.getStateCommitment S)
        (fresh.getStateCommitment S) calldata
        (.ok (utf8 (AccountInfo.message action),ctx,[])),fresh) := by
  have ha := AccountInfo.applyAction_eq_ok.mpr ⟨haccepts,rfl,rfl⟩
  have hto : (((wallet.accountInfo acc).after calldata action).toH256 sha256).toOption=
      some leaf := by
    rw [hl]
    rfl
  obtain ⟨smt,hs⟩ := (Store.exists_update wallet.smt (AccountInfo.computeKey sha256 acc)
    ((wallet.accountInfo acc).after calldata action)).mpr ⟨leaf,hto⟩
  refine ⟨⟨wallet.inviteCodePublicKey,smt,wallet.saltsAfter action⟩,rfl,hs,
    Store.leaf_update hs hto,?_⟩
  exact handle_eq_ok.mpr (actualHandle_of_ok hp hn ha hs)

/-- What the circuit makes of the action of the calldata on the supplied account. -/
theorem execute_supplied {action : WalletAction} {ctx : ExecutionContext} {acc : String}
    {rest : List (PartialWalletData Proof)}
    (hp : parseRawCalldata WalletAction calldata=.ok (action,ctx))
    (hn : action.account?=some acc) (named : wallet.Named acc)
    (recovers : Recovers S prove wallet.smt.leaf [AccountInfo.computeKey sha256 acc]) :
    WalletZkView.execute S sha256 ⟨wallet.getStateCommitment S,wallet.inviteCodePublicKey,
        rest++[supplied prove wallet acc]⟩ calldata=
      match (wallet.accountInfo acc).applyAction sha256 wallet.inviteCodePublicKey action
          calldata with
      | .error e => (.error e,⟨wallet.getStateCommitment S,wallet.inviteCodePublicKey,rest⟩)
      | .ok (res,account) =>
        match account.toH256 sha256 with
        | .error e => (.error e,⟨wallet.getStateCommitment S,wallet.inviteCodePublicKey,rest⟩)
        | .ok leaf => (.ok (utf8 res,ctx,[]),
            ⟨TruthSeeker.Wallet.getStateCommitment sha256
              (S.root (WalletZkView.changed wallet.smt acc leaf)) wallet.inviteCodePublicKey,
              wallet.inviteCodePublicKey,rest⟩) := by
  rw [WalletZkView.execute_account hp hn (d := supplied prove wallet acc) (by simp)]
  rw [transition_supplied named recovers,List.dropLast_concat]
  cases ha : (wallet.accountInfo acc).applyAction sha256 wallet.inviteCodePublicKey action
      calldata with
  | error e => simp only [bind,Except.bind]
  | ok p =>
    cases hl : p.2.toH256 sha256 with
    | error e => simp only [bind,Except.bind,hl]
    | ok leaf => simp only [bind,Except.bind,hl,pure,Except.pure]

/-- A handled action is accepted, and the account that it leaves is written, or it is
refused, and the account is written back. -/
theorem handled_cases {action : WalletAction} {ctx : ExecutionContext} {acc : String}
    {output : HyleOutput} {fresh : Wallet sha256}
    (hp : parseRawCalldata WalletAction calldata=.ok (action,ctx))
    (hn : action.account?=some acc)
    (hh : wallet.actualHandle S quote calldata=.ok (output,fresh)) :
    wallet.Invited calldata action ∧
    (((wallet.accountInfo acc).Accepts sha256 wallet.inviteCodePublicKey calldata action ∧
      wallet.smt.update (AccountInfo.computeKey sha256 acc)
        ((wallet.accountInfo acc).after calldata action)=some fresh.smt ∧
      output.success=true) ∨
    (¬(wallet.accountInfo acc).Accepts sha256 wallet.inviteCodePublicKey calldata action ∧
      wallet.smt.update (AccountInfo.computeKey sha256 acc) (wallet.accountInfo acc)=
        some fresh.smt ∧ output.success=false)) := by
  rw [actualHandle_account hp hn] at hh
  have hi : wallet.Invited calldata action := by
    by_contra h
    have ⟨e,he⟩ : ∃ e,wallet.result acc action calldata=.error e := result_of_uninvited h
    rw [he] at hh
    cases hh
  refine ⟨hi,?_⟩
  rw [result_of_invited hn hi] at hh
  have hcallees := calleesBlobs_of_parseRawCalldata hp
  rcases ((wallet.accountInfo acc).applyAction_quiet calldata hn).cases with
    ⟨⟨res,account⟩,ha⟩ | ⟨m,ha⟩
  · obtain ⟨haccepts,rfl,rfl⟩ := AccountInfo.applyAction_eq_ok.mp ha
    rw [ha] at hh
    simp only [Outcome.bind_eq_ok,Outcome.caught,Outcome.fromOption_eq_ok,
      Outcome.pure_eq_ok,Prod.mk.injEq] at hh
    obtain ⟨_,⟨res,hr,rfl⟩,smt,hu,rfl,rfl⟩ := hh
    obtain rfl := Except.ok.inj hr
    refine Or.inl ⟨haccepts,hu,?_⟩
    simp [Except.map,asHyleOutput,hcallees]
  · rw [ha] at hh
    simp only [Outcome.bind_eq_ok,Outcome.caught,Outcome.fromOption_eq_ok,
      Outcome.pure_eq_ok,Prod.mk.injEq] at hh
    obtain ⟨_,⟨res,hr,rfl⟩,smt,hu,rfl,rfl⟩ := hh
    obtain rfl := Except.ok.inj hr
    refine Or.inr ⟨?_,hu,rfl⟩
    intro haccepts
    rw [AccountInfo.applyAction_eq_ok.mpr ⟨haccepts,rfl,rfl⟩] at ha
    cases ha

/-- A handled action was invited, and the account that it leaves can be written. -/
theorem handled_account {action : WalletAction} {ctx : ExecutionContext} {acc : String}
    {handled : HyleOutput × Wallet sha256}
    (hp : parseRawCalldata WalletAction calldata=.ok (action,ctx))
    (hn : action.account?=some acc)
    (hh : wallet.actualHandle S quote calldata=.ok handled) :
    wallet.Invited calldata action ∧
      ((wallet.accountInfo acc).Accepts sha256 wallet.inviteCodePublicKey calldata action →
        ∃ leaf,((wallet.accountInfo acc).after calldata action).toH256 sha256=.ok leaf) := by
  obtain ⟨output,fresh⟩ := handled
  obtain ⟨hi,⟨_,hu,_⟩|⟨hr,_,_⟩⟩ := handled_cases hp hn hh
  · refine ⟨hi,fun _ => ?_⟩
    obtain ⟨leaf,hl⟩ := (Store.exists_update _ _ _).mp ⟨fresh.smt,hu⟩
    refine ⟨leaf,?_⟩
    cases hx : ((wallet.accountInfo acc).after calldata action).toH256 sha256 with
    | error e => simp [hx,Except.toOption] at hl
    | ok l => simpa [hx,Except.toOption] using hl
  · exact ⟨hi,fun haccepts => absurd haccepts hr⟩

theorem agrees_account [Borsh Proof] [LawfulBorsh Proof] {action : WalletAction}
    {ctx : ExecutionContext} {acc : String} (trust : Trusted S prove wallet calldata)
    (hp : parseRawCalldata WalletAction calldata=.ok (action,ctx))
    (hd : fromSlice WalletAction blob.data=some action) (hn : action.account?=some acc) :
    Agrees S quote prove wallet calldata blob ↔ wallet.Invited calldata action ∧
      ((wallet.accountInfo acc).Accepts sha256 wallet.inviteCodePublicKey calldata action →
        ∃ leaf,((wallet.accountInfo acc).after calldata action).toH256 sha256=.ok leaf) := by
  have names : Names calldata acc := ⟨action,ctx,hp,hn⟩
  have named := trust.named names
  have hview : wallet.zkView S prove blob=⟨wallet.getStateCommitment S,
      wallet.inviteCodePublicKey,[supplied prove wallet acc]⟩ := zkView_account hd hn
  constructor
  · intro ⟨output,after,metadata,hh,_,_,_⟩
    exact handled_account hp hn (handle_eq_ok.mp hh)
  · intro ⟨hi,hwritten⟩
    obtain ⟨metadata,hm⟩ := exists_ser_supplied (S := S) named
      (WalletAction.length_account hd hn) (trust.written acc names)
    rw [← hview] at hm
    have hm : wallet.buildCommitmentMetadata S prove blob=.ok metadata := by
      rw [buildCommitmentMetadata,hm]
      rfl
    have hx : WalletZkView.execute S sha256 ⟨wallet.getStateCommitment S,
        wallet.inviteCodePublicKey,[]++[supplied prove wallet acc]⟩ calldata=_ :=
      execute_supplied hp hn named (trust.recovers acc names)
    rw [List.nil_append,← hview] at hx
    rcases ((wallet.accountInfo acc).applyAction_quiet calldata hn).cases with
      ⟨⟨res,account⟩,ha⟩ | ⟨m,ha⟩
    · obtain ⟨haccepts,rfl,rfl⟩ := AccountInfo.applyAction_eq_ok.mp ha
      obtain ⟨leaf,hl⟩ := hwritten haccepts
      obtain ⟨fresh,hk,_,hleaf,hh⟩ := handle_of_accepts S quote hp hn haccepts hl
      simp only [ha,hl] at hx
      have ht : Guest.turn (zkContract S sha256) quote (wallet.zkView S prove blob)
        (wallet.getStateCommitment S) calldata=_ := Guest.turn_of_ok hx
      have hfresh : fresh.getStateCommitment S=TruthSeeker.Wallet.getStateCommitment sha256
          (S.root (WalletZkView.changed wallet.smt acc leaf)) wallet.inviteCodePublicKey := by
        rw [getStateCommitment,hleaf,hk]
      rw [hfresh] at hh
      refine ⟨_,fresh,metadata,hh,hm,(execute_view hm).mpr ⟨_,_,ht⟩,?_⟩
      rw [hfresh]
      exact (asHyleOutput_nextState_eq_iff.mpr
        (Or.inl (calleesBlobs_of_parseRawCalldata hp))).symm
    · have hh : wallet.actualHandle S quote calldata=_ :=
        actualHandle_of_err hp hn named hi ha
      simp only [ha] at hx
      have ht : Guest.turn (zkContract S sha256) quote (wallet.zkView S prove blob)
        (wallet.getStateCommitment S) calldata=_ := Guest.turn_of_err hx
      exact ⟨_,_,metadata,handle_eq_ok.mpr hh,hm,(execute_view hm).mpr ⟨_,_,ht⟩,rfl⟩

/-- The executor and the circuit agree on a blob exactly when it is an action, a new
invite key is the first one and comes with the root of the accounts, a registration is
invited, and the account that an accepted action leaves can be written. -/
theorem agrees_iff [Borsh Proof] [LawfulBorsh Proof]
    (hb : calldata.blobs.get calldata.index=some blob)
    (trust : Trusted S prove wallet calldata) :
    Agrees S quote prove wallet calldata blob ↔ Follows S wallet calldata blob := by
  cases hd : fromSlice WalletAction blob.data with
  | none =>
    constructor
    · intro agrees
      obtain ⟨output,after,metadata,hh,_⟩ := agrees
      have hhandled := handle_eq_ok.mp hh
      simp only [actualHandle,Outcome.bind_eq_ok] at hhandled
      obtain ⟨⟨action,ctx⟩,hp,_⟩ := hhandled
      obtain ⟨other,ho,ha,_⟩ := parseRawCalldata_eq_ok.mp hp
      obtain rfl : blob=other := by simpa [hb] using ho
      rw [hd] at ha
      cases ha
    · intro follows
      obtain ⟨action,ha,_⟩ := follows
      rw [hd] at ha
      cases ha
  | some action =>
    have hp : parseRawCalldata WalletAction calldata=
        .ok (action,ExecutionContext.new calldata.identity blob.contractName) :=
      parseRawCalldata_eq_ok.mpr ⟨blob,hb,hd,rfl⟩
    cases hn : action.account? with
    | none =>
      cases action with
      | updateInviteCodePublicKey key smtRoot =>
        rw [agrees_update trust hp hd,follows_update hd]
      | _ => cases hn
    | some acc => rw [agrees_account trust hp hd hn,follows_account hd hn]

end Agreement

namespace FirstBlobs

/-- The blob of a transaction that is not an action of the wallet. -/
def blob : Blob := ⟨"wallet",[43,12,56]⟩

def calldata : Calldata where
  txHash := ""
  identity := ""
  blobs := [(0,blob)]
  txBlobCount := 1
  index := 0
  txCtx := none
  privateInput := []

def wallet : Wallet WalletZkView.Registration.sha256 := ⟨defaultInviteCodePublicKey,Store.empty,∅⟩

def quote (s : String) : String := "\""++s++"\""

def prove (_ : H256 → H256) (_ : List H256) : Unit := ()

end FirstBlobs

open FirstBlobs in
/-- The circuit outputs a failure for the blob; the executor has no output for it. -/
theorem not_agrees : calldata.blobs.get calldata.index=some blob ∧
    (∃ output,Guest.execute (zkContract WalletZkView.Registration.tree WalletZkView.Registration.sha256) quote
      ((Borsh.ser (wallet.zkView WalletZkView.Registration.tree prove blob)).getD []) [calldata]=
        .ok [output] ∧ output.success=false) ∧
    ¬Agrees WalletZkView.Registration.tree quote prove wallet calldata blob := by
  have hd : fromSlice WalletAction blob.data=none := by decide
  refine ⟨rfl,?_,?_⟩
  · have hview : wallet.zkView WalletZkView.Registration.tree prove blob=
        ⟨wallet.getStateCommitment WalletZkView.Registration.tree,wallet.inviteCodePublicKey,[]⟩ :=
      zkView_without (by simp [hd])
    obtain ⟨metadata,hm⟩ := exists_ser_without WalletZkView.Registration.tree wallet
    rw [hview,hm]
    have hx : (zkContract WalletZkView.Registration.tree WalletZkView.Registration.sha256).execute
        ⟨wallet.getStateCommitment WalletZkView.Registration.tree,wallet.inviteCodePublicKey,[]⟩ calldata=
        (.error (.err "Could not deserialize Blob at index 0"),
          ⟨wallet.getStateCommitment WalletZkView.Registration.tree,wallet.inviteCodePublicKey,[]⟩) := rfl
    rw [Option.getD_some,Guest.execute_started (fromSlice_ser hm) rfl]
    exact ⟨_,Guest.turns_single.mpr ⟨_,_,Guest.turn_of_err hx⟩,rfl⟩
  · intro ⟨output,after,metadata,hh,_⟩
    have hhandled := handle_eq_ok.mp hh
    simp only [actualHandle,Outcome.bind_eq_ok] at hhandled
    obtain ⟨⟨action,ctx⟩,hp,_⟩ := hhandled
    obtain ⟨other,ho,ha,_⟩ := parseRawCalldata_eq_ok.mp hp
    obtain rfl : blob=other := by simpa [calldata,IndexedBlobs.get] using ho
    rw [hd] at ha
    cases ha

namespace FirstBlobs

open WalletZkView.Registration (tree action accountKey)

theorem names_mallory {acc : String} (h : Names WalletZkView.Registration.calldata acc) :
    acc="mallory" := by
  obtain ⟨other,ctx,hp,hn⟩ := h
  rw [(WalletZkView.Registration.execute_supplied (Or.inl rfl)).1] at hp
  obtain ⟨rfl,_⟩ := Prod.mk.inj (Except.ok.inj hp)
  exact (Option.some.inj hn).symm

theorem trusted : Trusted tree prove wallet WalletZkView.Registration.calldata where
  recovers := by
    intro acc h
    obtain rfl := names_mallory h
    have hk : AccountInfo.computeKey WalletZkView.Registration.sha256 "mallory"=accountKey := by
      decide +kernel
    rw [hk]
    exact oneKey_recovers _ _ _ _
  written := fun acc _ => ⟨[],rfl⟩
  keyed := by simp [wallet,Store.empty]
  namesDiffer := by simp [wallet,Store.empty]
  rootsDiffer := by
    intro key smtRoot ctx hp
    rw [(WalletZkView.Registration.execute_supplied (Or.inl rfl)).1] at hp
    cases (Prod.mk.inj (Except.ok.inj hp)).1

end FirstBlobs

open FirstBlobs in
/-- The registration of an account in an empty wallet. -/
theorem agrees_iff_registration :
    Agrees WalletZkView.Registration.tree quote prove wallet
        WalletZkView.Registration.calldata
        ⟨"wallet",(Borsh.ser WalletZkView.Registration.action).getD []⟩ ↔
      Follows WalletZkView.Registration.tree wallet WalletZkView.Registration.calldata
        ⟨"wallet",(Borsh.ser WalletZkView.Registration.action).getD []⟩ :=
  agrees_iff rfl trusted

end TruthSeeker.WalletClient.Wallet
