import TruthSeeker.Wallet.Runs

namespace TruthSeeker.Wallet.WalletZkView

open Bytes Borsh Sdk SparseMerkle

variable {Proof : Type} {S : Scheme H256 H256 H256 Proof} {sha256 : Bytes → H256}
  {quote : String → String} {view : WalletZkView Proof} {calldata : Calldata}

/-- The view with the partial data of later calldata, which is taken last. -/
def withLater (view : WalletZkView Proof) (later : List (PartialWalletData Proof)) :
    WalletZkView Proof :=
  { view with partialData := later++view.partialData }

/-- The circuit looks at the last partial data only. -/
theorem execute_withLater (later : List (PartialWalletData Proof))
    (h : ∀ action ctx,parseRawCalldata WalletAction calldata=.ok (action,ctx) →
      action.account?≠none → view.partialData≠[]) :
    execute S sha256 (view.withLater later) calldata=
      ((execute S sha256 view calldata).1,
        (execute S sha256 view calldata).2.withLater later) := by
  cases hp : parseRawCalldata WalletAction calldata with
  | error e => simp only [execute,hp]
  | ok parsed =>
    obtain ⟨action,ctx⟩ := parsed
    cases hn : action.account? with
    | none =>
      cases action with
      | updateInviteCodePublicKey key smtRoot =>
        simp only [execute,hp]
        by_cases hk : view.inviteCodePublicKey≠defaultInviteCodePublicKey
        · simp [withLater,hk]
        · simp [withLater,hk]
      | _ => cases hn
    | some name =>
      have hne := h action ctx hp (by simp [hn])
      obtain ⟨d,hd⟩ : ∃ d,view.partialData.getLast?=some d :=
        ⟨_,List.getLast?_eq_some_getLast hne⟩
      have hlast : (later++view.partialData).getLast?=some d := by
        rw [List.getLast?_append,hd]
        rfl
      rw [@execute_account _ _ _ (view.withLater later) _ _ _ _ d hp hn hlast,
        execute_account hp hn hd]
      have hdrop : (view.withLater later).partialData.dropLast=
          later++view.partialData.dropLast := List.dropLast_append_of_ne_nil hne
      have hcommitment : (view.withLater later).commitment=view.commitment := rfl
      have hkey : (view.withLater later).inviteCodePublicKey=view.inviteCodePublicKey := rfl
      rw [hdrop,hcommitment,hkey]
      cases transition S sha256 view.commitment view.inviteCodePublicKey d action calldata with
      | error e => rfl
      | ok p => rfl

theorem turn_withLater (initial : StateCommitment) (later : List (PartialWalletData Proof))
    (h : ∀ action ctx,parseRawCalldata WalletAction calldata=.ok (action,ctx) →
      action.account?≠none → view.partialData≠[]) :
    Guest.turn (zkContract S sha256) quote (view.withLater later) initial calldata=
      (Guest.turn (zkContract S sha256) quote view initial calldata).map
        (fun p => (p.1,p.2.1.withLater later,p.2.2)) := by
  have he : (zkContract S sha256).execute (view.withLater later) calldata=
      (((zkContract S sha256).execute view calldata).1,
        ((zkContract S sha256).execute view calldata).2.withLater later) :=
    execute_withLater later h
  simp only [Guest.turn,he]
  cases ((zkContract S sha256).execute view calldata).1 with
  | ok out => rfl
  | error e =>
    cases e with
    | err m => rfl
    | panic m => rfl

variable [Borsh Proof]

theorem exists_ser_view : (∃ bs,Borsh.ser view=some bs) ↔
    (∃ bs,Borsh.ser view.commitment=some bs) ∧ view.partialData.length<2^32 ∧
      ∀ d∈view.partialData,∃ bs,Borsh.ser d=some bs := by
  have hv : Borsh.ser view=
      Borsh.ser (view.commitment,view.inviteCodePublicKey,view.partialData) := rfl
  have hk : ∃ bs,Borsh.ser view.inviteCodePublicKey=some bs := ⟨_,rfl⟩
  rw [hv,exists_ser_prod,exists_ser_prod,← exists_ser_list]
  exact ⟨fun ⟨hc,_,hd⟩ => ⟨hc,hd⟩,fun ⟨hc,hd⟩ => ⟨hc,hk,hd⟩⟩

/-- What is merged into can be written when the result can. -/
theorem exists_ser_of_merge {views : List (WalletZkView Proof)}
    (h : ∃ bs,Borsh.ser (views.foldl merge view)=some bs) : ∃ bs,Borsh.ser view=some bs := by
  induction views generalizing view with
  | nil => exact h
  | cons next views ih =>
    have hm := ih h
    rw [exists_ser_view] at hm ⊢
    obtain ⟨hc,hl,hd⟩ := hm
    have hlen : view.partialData.length ≤ (view.merge next).partialData.length := by
      simp [merge]
    exact ⟨hc,by omega,fun d hm => hd d (List.mem_append_right _ hm)⟩

variable [LawfulBorsh Proof]

theorem mergeCommitmentMetadata_ser {next : WalletZkView Proof} {xs ys : Bytes}
    (hx : Borsh.ser view=some xs) (hy : Borsh.ser next=some ys) {merged : Bytes} :
    WalletClient.Wallet.mergeCommitmentMetadata Proof xs ys=.ok merged ↔
      Borsh.ser (view.merge next)=some merged := by
  simp only [WalletClient.Wallet.mergeCommitmentMetadata,fromSlice_ser hx,fromSlice_ser hy,
    Outcome.fromOption,bind,Except.bind]
  exact Outcome.fromOption_eq_ok

/-- The merged metadata is the merged view. -/
theorem foldlM_mergeCommitmentMetadata {views : List (WalletZkView Proof)} {first : Bytes}
    {rest : List Bytes} (hf : Borsh.ser view=some first)
    (hr : List.Forall₂ (fun view bs => Borsh.ser view=some bs) views rest) {merged : Bytes} :
    rest.foldlM (WalletClient.Wallet.mergeCommitmentMetadata Proof) first=.ok merged ↔
      Borsh.ser (views.foldl merge view)=some merged := by
  induction hr generalizing view first with
  | nil =>
    show Except.ok first=.ok merged ↔ Borsh.ser view=some merged
    simp [hf]
  | cons hv hr ih =>
    rw [List.foldlM_cons,List.foldl_cons,Outcome.bind_eq_ok]
    constructor
    · intro ⟨bs,hm,hrest⟩
      exact (ih ((mergeCommitmentMetadata_ser hf hv).mp hm)).mp hrest
    · intro h
      obtain ⟨bs,hs⟩ := exists_ser_of_merge ⟨_,h⟩
      exact ⟨bs,(mergeCommitmentMetadata_ser hf hv).mpr hs,(ih hs).mpr h⟩

end TruthSeeker.Wallet.WalletZkView

namespace TruthSeeker.WalletClient.Wallet

open TruthSeeker.Wallet Bytes Borsh Sdk SparseMerkle

/-- A calldata with the blob that it is for. -/
abbrev Call := Calldata × Blob

section Batching
variable {Proof : Type} (S : Scheme H256 H256 H256 Proof) {sha256 : Bytes → H256}
  (quote : String → String) (prove : (H256 → H256) → List H256 → Proof)

/-- Holds at every call, in the wallet before it. -/
def Along (P : Wallet sha256 → Call → Prop) : Wallet sha256 → List Call → Prop
  | _,[] => True
  | wallet,call::calls => P wallet call ∧ Along P (next S quote wallet call.1) calls

/-- Each calldata with the metadata that is built from the wallet before it. -/
def withMetadata [Borsh Proof] (wallet : Wallet sha256) :
    List Call → Outcome (List (Bytes × Calldata))
  | [] => .ok []
  | (calldata,blob)::calls => do
    let metadata ← wallet.buildCommitmentMetadata S prove blob
    let rest ← withMetadata (next S quote wallet calldata) calls
    return (metadata,calldata)::rest

/-- One proof for all the calls has the outputs of the proofs for each of them. -/
def BatchTransparent [Borsh Proof] (wallet : Wallet sha256) (calls : List Call) : Prop :=
  ∃ first rest,withMetadata S quote prove wallet calls=.ok (first::rest) ∧
    Guest.Transparent (zkContract S sha256) quote (mergeCommitmentMetadata Proof) first rest

/-- An accepted change of the invite key leaves the default key and the root. -/
def KeepsKey (wallet : Wallet sha256) (call : Call) : Prop :=
  ∀ key smtRoot ctx,parseRawCalldata WalletAction call.1=
      .ok (.updateInviteCodePublicKey key smtRoot,ctx) →
    wallet.inviteCodePublicKey=defaultInviteCodePublicKey →
    key=defaultInviteCodePublicKey ∧ smtRoot=S.root wallet.smt.leaf

/-- The blob is an action on an account. -/
def namesAccount (call : Call) : Bool :=
  ((fromSlice WalletAction call.2.data).bind WalletAction.account?).isSome

/-- The partial data of the calls, that of the first one last. -/
def partials (wallet : Wallet sha256) : List Call → List (PartialWalletData Proof)
  | [] => []
  | (calldata,blob)::calls =>
    partials (next S quote wallet calldata) calls++(wallet.zkView S prove blob).partialData

/-- The invite key before the last call. -/
def lastKey (wallet : Wallet sha256) : List Call → InviteCodePubKey
  | [] => wallet.inviteCodePublicKey
  | [_] => wallet.inviteCodePublicKey
  | call::other::calls => lastKey (next S quote wallet call.1) (other::calls)

def views (wallet : Wallet sha256) : List Call → List (WalletZkView Proof)
  | [] => []
  | (calldata,blob)::calls =>
    wallet.zkView S prove blob::views (next S quote wallet calldata) calls

variable {S quote prove} {wallet : Wallet sha256} {calldata : Calldata} {blob : Blob}

theorem foldl_merge (view : WalletZkView Proof) (call : Call) (calls : List Call) :
    (views S quote prove wallet (call::calls)).foldl WalletZkView.merge view=
      ⟨view.commitment,lastKey S quote wallet (call::calls),
        partials S quote prove wallet (call::calls)++view.partialData⟩ := by
  induction calls generalizing wallet view call with
  | nil => simp [views,WalletZkView.merge,lastKey,partials,zkView]
  | cons other calls ih =>
    have hs := @ih (next S quote wallet call.1) (view.merge (wallet.zkView S prove call.2)) other
    rw [views,List.foldl_cons,hs]
    simp [WalletZkView.merge,lastKey,partials]

/-- The merged view of a batch. -/
theorem foldl_merge_views (call : Call) (calls : List Call) :
    (views S quote prove (next S quote wallet call.1) calls).foldl WalletZkView.merge
        (wallet.zkView S prove call.2)=
      ⟨wallet.getStateCommitment S,lastKey S quote wallet (call::calls),
        partials S quote prove wallet (call::calls)⟩ := by
  cases calls with
  | nil => rfl
  | cons other calls =>
    rw [foldl_merge]
    rfl

theorem length_partials (wallet : Wallet sha256) (calls : List Call) :
    (partials S quote prove wallet calls).length=(calls.filter namesAccount).length := by
  induction calls generalizing wallet with
  | nil => rfl
  | cons call calls ih =>
    have hs := ih (next S quote wallet call.1)
    cases hn : (fromSlice WalletAction call.2.data).bind WalletAction.account? with
    | none => simp [partials,namesAccount,zkView,hn,hs]
    | some acc => simp [partials,namesAccount,zkView,hn,hs]

end Batching

section Turns
variable {Proof : Type} {S : Scheme H256 H256 H256 Proof} {sha256 : Bytes → H256}
  {quote : String → String} {prove : (H256 → H256) → List H256 → Proof}
  {wallet : Wallet sha256} {calldata : Calldata} {blob : Blob}

theorem next_of_error {fault : Fault} (h : wallet.actualHandle S quote calldata=.error fault) :
    next S quote wallet calldata=wallet := by
  cases fault <;> simp [next,handle,h,Outcome.err]

theorem next_of_actual {output : HyleOutput} {fresh : Wallet sha256}
    (h : wallet.actualHandle S quote calldata=.ok (output,fresh)) :
    next S quote wallet calldata=fresh :=
  next_of_ok (handle_eq_ok.mpr h)

/-- A blob that is not an action is an error on both sides. -/
theorem parse_of_undecoded (hb : calldata.blobs.get calldata.index=some blob)
    (hd : fromSlice WalletAction blob.data=none) :
    ∃ m,parseRawCalldata WalletAction calldata=.error (.err m) := by
  refine ⟨s!"Could not deserialize Blob at index {calldata.index}",?_⟩
  simp only [parseRawCalldata,hb,hd,Outcome.fromOption,bind,Except.bind]

theorem parse_of_decoded {action : WalletAction}
    (hb : calldata.blobs.get calldata.index=some blob)
    (hd : fromSlice WalletAction blob.data=some action) :
    parseRawCalldata WalletAction calldata=
      .ok (action,ExecutionContext.new calldata.identity blob.contractName) :=
  parseRawCalldata_eq_ok.mpr ⟨blob,hb,hd,rfl⟩

theorem next_undecoded {m : String}
    (hp : parseRawCalldata WalletAction calldata=.error (.err m)) :
    next S quote wallet calldata=wallet := by
  have refused : wallet.actualHandle S quote calldata=.error (.err m) := by
    simp only [actualHandle,hp,bind,Except.bind]
  exact next_of_error refused

theorem next_update {key : InviteCodePubKey} {smtRoot : H256} {ctx : ExecutionContext}
    (hp : parseRawCalldata WalletAction calldata=
      .ok (.updateInviteCodePublicKey key smtRoot,ctx)) :
    next S quote wallet calldata=
      if wallet.inviteCodePublicKey=defaultInviteCodePublicKey then
        { wallet with inviteCodePublicKey := key } else wallet := by
  split_ifs with hk
  · exact next_of_actual ((actualHandle_update hp).mpr ⟨hk,rfl⟩)
  · have refused : wallet.actualHandle S quote calldata=
        .error (.err "Invite code public key already set") := by
      simp only [actualHandle,hp,bind,Except.bind,Outcome.ensure,hk,if_false]
      rfl
    exact next_of_error refused

/-- An action on an account keeps the invite key. -/
theorem key_next_account {action : WalletAction} {ctx : ExecutionContext} {acc : String}
    (hp : parseRawCalldata WalletAction calldata=.ok (action,ctx))
    (hn : action.account?=some acc) :
    (next S quote wallet calldata).inviteCodePublicKey=wallet.inviteCodePublicKey := by
  unfold next
  cases hh : wallet.handle S quote calldata with
  | error e => rfl
  | ok handled =>
    have h := handle_eq_ok.mp hh
    rw [actualHandle_account hp hn] at h
    obtain ⟨⟨result,salts⟩,_,h⟩ := Outcome.bind_eq_ok.mp h
    obtain ⟨smt,_,h⟩ := Outcome.bind_eq_ok.mp h
    obtain rfl := Outcome.pure_eq_ok.mp h
    rfl

/-- A set invite key stays. -/
theorem key_next_of_set (hb : calldata.blobs.get calldata.index=some blob)
    (hk : wallet.inviteCodePublicKey≠defaultInviteCodePublicKey) :
    (next S quote wallet calldata).inviteCodePublicKey=wallet.inviteCodePublicKey := by
  cases hd : fromSlice WalletAction blob.data with
  | none =>
    obtain ⟨m,hp⟩ := parse_of_undecoded hb hd
    rw [next_undecoded hp]
  | some action =>
    have hp := parse_of_decoded hb hd
    cases hn : action.account? with
    | none =>
      cases action with
      | updateInviteCodePublicKey key smtRoot => rw [next_update hp,if_neg hk]
      | _ => cases hn
    | some acc => exact key_next_account hp hn

/-- A key that is kept is the one after the blob. -/
theorem key_next_of_keepsKey (hb : calldata.blobs.get calldata.index=some blob)
    (keeps : KeepsKey S wallet (calldata,blob)) :
    (next S quote wallet calldata).inviteCodePublicKey=wallet.inviteCodePublicKey := by
  by_cases hk : wallet.inviteCodePublicKey=defaultInviteCodePublicKey
  · cases hd : fromSlice WalletAction blob.data with
    | none =>
      obtain ⟨m,hp⟩ := parse_of_undecoded hb hd
      rw [next_undecoded hp]
    | some action =>
      have hp := parse_of_decoded hb hd
      cases hn : action.account? with
      | none =>
        cases action with
        | updateInviteCodePublicKey key smtRoot =>
          rw [next_update hp,if_pos hk]
          exact ((keeps key smtRoot _ hp hk).1).trans hk.symm
        | _ => cases hn
      | some acc => exact key_next_account hp hn
  · exact key_next_of_set hb hk

end Turns

section Turned
variable {Proof : Type} {S : Scheme H256 H256 H256 Proof} {sha256 : Bytes → H256}
  {quote : String → String} {prove : (H256 → H256) → List H256 → Proof}
  {wallet : Wallet sha256} {calldata : Calldata} {blob : Blob}

/-- The circuit fails on a blob that is not an action, whatever its view. -/
theorem turn_undecoded {m : String} (view : WalletZkView Proof) (initial : StateCommitment)
    (hp : parseRawCalldata WalletAction calldata=.error (.err m)) :
    Guest.turn (zkContract S sha256) quote view initial calldata=
      .ok (fail calldata initial m,view,initial) := by
  have hx : (zkContract S sha256).execute view calldata=(.error (.err m),view) := by
    show WalletZkView.execute S sha256 view calldata=_
    simp only [WalletZkView.execute,hp]
  exact Guest.turn_of_err hx

theorem turn_update {key : InviteCodePubKey} {smtRoot : H256} {ctx : ExecutionContext}
    {view : WalletZkView Proof} (initial : StateCommitment)
    (hp : parseRawCalldata WalletAction calldata=
      .ok (.updateInviteCodePublicKey key smtRoot,ctx)) :
    Guest.turn (zkContract S sha256) quote view initial calldata=
      if view.inviteCodePublicKey=defaultInviteCodePublicKey then
        .ok (asHyleOutput quote initial
            (TruthSeeker.Wallet.getStateCommitment sha256 smtRoot key) calldata
            (.ok (utf8 "Updated public key",ctx,[])),
          ⟨TruthSeeker.Wallet.getStateCommitment sha256 smtRoot key,key,view.partialData⟩,
          TruthSeeker.Wallet.getStateCommitment sha256 smtRoot key)
      else .ok (fail calldata initial "Invite code public key already set",view,initial) := by
  split_ifs with hk
  · have hx : (zkContract S sha256).execute view calldata=_ :=
      (WalletZkView.execute_update hp).mpr ⟨hk,rfl,rfl⟩
    exact Guest.turn_of_ok hx
  · have hx : (zkContract S sha256).execute view calldata=
        (.error (.err "Invite code public key already set"),view) := by
      show WalletZkView.execute S sha256 view calldata=_
      simp only [WalletZkView.execute,hp,ne_eq,hk,not_false_eq_true,if_true]
      rfl
    exact Guest.turn_of_err hx

/-- A turn on an account takes its partial data and keeps the invite key. -/
theorem turn_account {action : WalletAction} {ctx : ExecutionContext} {acc : String}
    {view after : WalletZkView Proof} {d : PartialWalletData Proof}
    {rest : List (PartialWalletData Proof)} {initial next : StateCommitment}
    {output : HyleOutput}
    (hp : parseRawCalldata WalletAction calldata=.ok (action,ctx))
    (hn : action.account?=some acc) (hd : view.partialData=rest++[d])
    (ht : Guest.turn (zkContract S sha256) quote view initial calldata=.ok (output,after,next)) :
    after.inviteCodePublicKey=view.inviteCodePublicKey ∧ after.partialData=rest := by
  have hlast : view.partialData.getLast?=some d := by simp [hd]
  have hdrop : view.partialData.dropLast=rest := by simp [hd]
  have hx : WalletZkView.execute S sha256 view calldata=_ :=
    WalletZkView.execute_account hp hn hlast
  rw [hdrop] at hx
  cases htr : WalletZkView.transition S sha256 view.commitment view.inviteCodePublicKey d action
      calldata with
  | error fault =>
    simp only [htr] at hx
    cases fault with
    | err m =>
      rw [Guest.turn_of_err (Z := zkContract S sha256) hx] at ht
      obtain ⟨_,rfl,_⟩ := Prod.mk.inj (Except.ok.inj ht)
      exact ⟨rfl,rfl⟩
    | panic m =>
      rw [Guest.turn_of_panic (Z := zkContract S sha256) hx] at ht
      cases ht
  | ok p =>
    simp only [htr] at hx
    rw [Guest.turn_of_ok (Z := zkContract S sha256) hx] at ht
    obtain ⟨_,ha⟩ := Prod.mk.inj (Except.ok.inj ht)
    obtain ⟨rfl,_⟩ := Prod.mk.inj ha
    exact ⟨rfl,rfl⟩

end Turned

section Transparency
variable {Proof : Type} {S : Scheme H256 H256 H256 Proof} {sha256 : Bytes → H256}
  {quote : String → String} {prove : (H256 → H256) → List H256 → Proof}
  {wallet : Wallet sha256} {calldata : Calldata} {blob : Blob}

/-- The executor has metadata for every blob. -/
theorem exists_metadata [Borsh Proof] (hb : calldata.blobs.get calldata.index=some blob)
    (trust : Trusted S prove wallet calldata) :
    ∃ metadata,wallet.buildCommitmentMetadata S prove blob=.ok metadata := by
  have written : ∃ bs,Borsh.ser (wallet.zkView S prove blob)=some bs := by
    cases hn : (fromSlice WalletAction blob.data).bind WalletAction.account? with
    | none =>
      rw [zkView_without hn]
      exact exists_ser_without S wallet
    | some acc =>
      obtain ⟨action,hd,hn⟩ := Option.bind_eq_some_iff.mp hn
      have names : Names calldata acc := ⟨action,_,parse_of_decoded hb hd,hn⟩
      rw [zkView_account hd hn]
      exact exists_ser_supplied (trust.named names) (WalletAction.length_account hd hn)
        (trust.written acc names)
  obtain ⟨metadata,hm⟩ := written
  exact ⟨metadata,Outcome.fromOption_eq_ok.mpr hm⟩

/-- The account that a write stores has a leaf. -/
theorem toH256_of_update {smt fresh : AccountSMT sha256} {key : H256} {a : AccountInfo}
    (h : smt.update key a=some fresh) : ∃ leaf,a.toH256 sha256=.ok leaf := by
  obtain ⟨leaf,hl⟩ := (Store.exists_update _ _ _).mp ⟨fresh,h⟩
  refine ⟨leaf,?_⟩
  cases hx : a.toH256 sha256 with
  | error e => simp [hx,Except.toOption] at hl
  | ok l => simpa [hx,Except.toOption] using hl

/-- The executor panics when it cannot write the account that an accepted action leaves. -/
theorem leaf_of_quiet {action : WalletAction} {ctx : ExecutionContext} {acc : String}
    (hp : parseRawCalldata WalletAction calldata=.ok (action,ctx))
    (hn : action.account?=some acc)
    (accepts : (wallet.accountInfo acc).Accepts sha256 wallet.inviteCodePublicKey calldata
      action) (handled : Outcome.Quiet (wallet.handle S quote calldata)) :
    ∃ leaf,((wallet.accountInfo acc).after calldata action).toH256 sha256=.ok leaf := by
  have ha := AccountInfo.applyAction_eq_ok.mpr ⟨accepts,rfl,rfl⟩
  have hi : wallet.Invited calldata action := by
    by_contra uninvited
    obtain ⟨m,hm⟩ := applyAction_of_uninvited (wallet.accountInfo acc) uninvited
    rw [ha] at hm
    cases hm
  cases hu : wallet.smt.update (AccountInfo.computeKey sha256 acc)
      ((wallet.accountInfo acc).after calldata action) with
  | some smt => exact toH256_of_update hu
  | none =>
    have panics : wallet.actualHandle S quote calldata=
        .error (.panic "called `Result::unwrap()` on an `Err` value") := by
      rw [actualHandle_account hp hn,result_of_invited hn hi,ha]
      simp only [Outcome.caught,bind,Except.bind,pure,Except.pure,hu,Outcome.fromOption]
    exact absurd (by simp [handle,panics]) (handled "called `Result::unwrap()` on an `Err` value")

theorem turn_zkView_update {key : InviteCodePubKey} {smtRoot : H256} {ctx : ExecutionContext}
    (hp : parseRawCalldata WalletAction calldata=
      .ok (.updateInviteCodePublicKey key smtRoot,ctx))
    (hd : fromSlice WalletAction blob.data=some (.updateInviteCodePublicKey key smtRoot)) :
    ∃ output after state,Guest.turn (zkContract S sha256) quote (wallet.zkView S prove blob)
        (wallet.getStateCommitment S) calldata=.ok (output,after,state) ∧
      (KeepsKey S wallet (calldata,blob) →
        after=⟨(next S quote wallet calldata).getStateCommitment S,
          (next S quote wallet calldata).inviteCodePublicKey,[]⟩ ∧
        state=(next S quote wallet calldata).getStateCommitment S) := by
  rw [zkView_without (by simp [hd,WalletAction.account?]),turn_update _ hp,next_update hp]
  by_cases hk : wallet.inviteCodePublicKey=defaultInviteCodePublicKey
  · rw [if_pos hk,if_pos hk]
    refine ⟨_,_,_,rfl,?_⟩
    intro keeps
    obtain ⟨rfl,rfl⟩ := keeps _ _ _ hp hk
    exact ⟨rfl,rfl⟩
  · rw [if_neg hk,if_neg hk]
    exact ⟨_,_,_,rfl,fun _ => ⟨rfl,rfl⟩⟩

theorem turn_zkView_account {action : WalletAction} {ctx : ExecutionContext} {acc : String}
    (hp : parseRawCalldata WalletAction calldata=.ok (action,ctx))
    (hd : fromSlice WalletAction blob.data=some action) (hn : action.account?=some acc)
    [Borsh Proof] (trust : Trusted S prove wallet calldata)
    (handled : Outcome.Quiet (wallet.handle S quote calldata)) :
    ∃ output,Guest.turn (zkContract S sha256) quote (wallet.zkView S prove blob)
        (wallet.getStateCommitment S) calldata=
      .ok (output,⟨(next S quote wallet calldata).getStateCommitment S,
          (next S quote wallet calldata).inviteCodePublicKey,[]⟩,
        (next S quote wallet calldata).getStateCommitment S) := by
  have names : Names calldata acc := ⟨action,_,hp,hn⟩
  have named := trust.named names
  have hx : (zkContract S sha256).execute ⟨wallet.getStateCommitment S,
      wallet.inviteCodePublicKey,[]++[supplied prove wallet acc]⟩ calldata=_ :=
    execute_supplied hp hn named (trust.recovers acc names)
  rw [List.nil_append] at hx
  rw [zkView_account hd hn]
  obtain ⟨⟨res,account⟩,ha⟩|⟨m,ha⟩ :=
    ((wallet.accountInfo acc).applyAction_quiet calldata hn).cases
  · obtain ⟨accepts,rfl,rfl⟩ := AccountInfo.applyAction_eq_ok.mp ha
    obtain ⟨leaf,hl⟩ := leaf_of_quiet hp hn accepts handled
    obtain ⟨fresh,hk,_,hleaf,hh⟩ := handle_of_accepts S quote hp hn accepts hl
    simp only [ha,hl] at hx
    have hfresh : fresh.getStateCommitment S=TruthSeeker.Wallet.getStateCommitment sha256
        (S.root (WalletZkView.changed wallet.smt acc leaf)) wallet.inviteCodePublicKey := by
      rw [getStateCommitment,hleaf,hk]
    rw [next_of_ok hh,hfresh,hk]
    exact ⟨_,Guest.turn_of_ok hx⟩
  · simp only [ha] at hx
    by_cases hi : wallet.Invited calldata action
    · rw [next_of_actual (actualHandle_of_err hp hn named hi ha)]
      exact ⟨_,Guest.turn_of_err hx⟩
    · obtain ⟨e,he⟩ : ∃ e,wallet.result acc action calldata=.error e := result_of_uninvited hi
      have refused : wallet.actualHandle S quote calldata=.error e := by
        rw [actualHandle_account hp hn,he]
        rfl
      rw [next_of_error refused]
      exact ⟨_,Guest.turn_of_err hx⟩

/-- The turn on the view of the executor has an output, and it ends in the view of the
wallet after the blob when it keeps the invite key. -/
theorem turn_zkView (hb : calldata.blobs.get calldata.index=some blob)
    [Borsh Proof] (trust : Trusted S prove wallet calldata)
    (handled : Outcome.Quiet (wallet.handle S quote calldata)) :
    ∃ output after state,Guest.turn (zkContract S sha256) quote (wallet.zkView S prove blob)
        (wallet.getStateCommitment S) calldata=.ok (output,after,state) ∧
      (KeepsKey S wallet (calldata,blob) →
        after=⟨(next S quote wallet calldata).getStateCommitment S,
          (next S quote wallet calldata).inviteCodePublicKey,[]⟩ ∧
        state=(next S quote wallet calldata).getStateCommitment S) := by
  cases hd : fromSlice WalletAction blob.data with
  | none =>
    obtain ⟨m,hp⟩ := parse_of_undecoded hb hd
    refine ⟨_,_,_,turn_undecoded _ _ hp,fun _ => ?_⟩
    rw [next_undecoded hp,zkView_without (by rw [hd]; rfl)]
    exact ⟨rfl,rfl⟩
  | some action =>
    have hp := parse_of_decoded hb hd
    cases hn : action.account? with
    | none =>
      cases action with
      | updateInviteCodePublicKey key smtRoot => exact turn_zkView_update hp hd
      | _ => cases hn
    | some acc =>
      obtain ⟨output,turned⟩ := turn_zkView_account hp hd hn trust handled
      exact ⟨output,_,_,turned,fun _ => ⟨rfl,rfl⟩⟩

end Transparency


section Batches
variable {Proof : Type} {S : Scheme H256 H256 H256 Proof} {sha256 : Bytes → H256}
  {quote : String → String} {prove : (H256 → H256) → List H256 → Proof}
  {wallet : Wallet sha256} {calls : List Call}

/-- Each calldata is for its blob. -/
def Addressed (calls : List Call) : Prop :=
  ∀ call∈calls,call.1.blobs.get call.1.index=some call.2

theorem Addressed.head {call : Call} (h : Addressed (call::calls)) :
    call.1.blobs.get call.1.index=some call.2 := h call List.mem_cons_self

theorem Addressed.tail {call : Call} (h : Addressed (call::calls)) : Addressed calls :=
  fun other later => h other (List.mem_cons_of_mem _ later)

theorem along_keepsKey_of_set (addressed : Addressed calls)
    (hk : wallet.inviteCodePublicKey≠defaultInviteCodePublicKey) :
    Along S quote (KeepsKey S) wallet calls := by
  induction calls generalizing wallet with
  | nil => trivial
  | cons call calls ih =>
    refine ⟨fun _ _ _ _ unset => absurd unset hk,?_⟩
    apply ih addressed.tail
    rw [key_next_of_set addressed.head hk]
    exact hk

/-- The invite key before the last call is the first one when every other call keeps it. -/
theorem lastKey_eq (addressed : Addressed calls)
    (keeps : Along S quote (KeepsKey S) wallet calls.dropLast) :
    lastKey S quote wallet calls=wallet.inviteCodePublicKey := by
  induction calls generalizing wallet with
  | nil => rfl
  | cons call calls ih =>
    cases calls with
    | nil => rfl
    | cons other calls =>
      rw [lastKey,ih addressed.tail keeps.2]
      exact key_next_of_keepsKey addressed.head keeps.1

theorem lastKey_of_set (addressed : Addressed calls)
    (hk : wallet.inviteCodePublicKey≠defaultInviteCodePublicKey) :
    lastKey S quote wallet calls=wallet.inviteCodePublicKey := by
  apply lastKey_eq addressed
  apply along_keepsKey_of_set _ hk
  exact fun call hc => addressed call (List.dropLast_subset _ hc)

section Steps
variable {calldata : Calldata} {blob : Blob} {other : Call}
  {rest : List (PartialWalletData Proof)} {c initial state : StateCommitment}
  {output : HyleOutput} {after : WalletZkView Proof}

/-- A turn ends in the commitment that it reports. -/
theorem turn_commitment {view : WalletZkView Proof}
    (h : Guest.turn (zkContract S sha256) quote view view.commitment calldata=
      .ok (output,after,state)) : after.commitment=state := by
  have hs := (Guest.turn_eq_ok.mp h).1
  unfold Guest.successor at hs
  split at hs
  · obtain ⟨rfl,rfl⟩ := Prod.mk.inj hs
    rfl
  · obtain ⟨rfl,rfl⟩ := Prod.mk.inj hs
    rfl

/-- A turn of the batch on a change of the invite key, with the output that it has alone. -/
theorem kept_of_turn_update {key : InviteCodePubKey} {smtRoot : H256} {ctx : ExecutionContext}
    [Borsh Proof] (addressed : Addressed (other::calls))
    (trust : Trusted S prove wallet calldata)
    (hp : parseRawCalldata WalletAction calldata=
      .ok (.updateInviteCodePublicKey key smtRoot,ctx))
    (without : (fromSlice WalletAction blob.data).bind WalletAction.account?=none)
    (batch : Guest.turn (zkContract S sha256) quote
      ⟨c,lastKey S quote (next S quote wallet calldata) (other::calls),rest⟩ initial calldata=
        .ok (output,after,state))
    (alone : ∃ after state,Guest.turn (zkContract S sha256) quote (wallet.zkView S prove blob)
      (wallet.getStateCommitment S) calldata=.ok (output,after,state)) :
    after.inviteCodePublicKey=lastKey S quote (next S quote wallet calldata) (other::calls) ∧
      after.partialData=rest ∧
      (state=(next S quote wallet calldata).getStateCommitment S →
        KeepsKey S wallet (calldata,blob)) := by
  obtain ⟨_,_,alone⟩ := alone
  rw [zkView_without without,turn_update _ hp] at alone
  rw [turn_update _ hp] at batch
  by_cases hk : wallet.inviteCodePublicKey=defaultInviteCodePublicKey
  · rw [if_pos hk] at alone
    have success : output.success=true := by
      rw [← (Prod.mk.inj (Except.ok.inj alone)).1]
      simp [asHyleOutput,calleesBlobs_of_parseRawCalldata hp]
    have fresh : next S quote wallet calldata=
        { wallet with inviteCodePublicKey := key } := by
      rw [next_update hp,if_pos hk]
    split_ifs at batch with last
    · obtain ⟨_,batch⟩ := Prod.mk.inj (Except.ok.inj batch)
      obtain ⟨rfl,rfl⟩ := Prod.mk.inj batch
      have unset : key=defaultInviteCodePublicKey := by
        by_contra set
        have stays : lastKey S quote (next S quote wallet calldata) (other::calls)=
            (next S quote wallet calldata).inviteCodePublicKey :=
          lastKey_of_set addressed (by rw [fresh]; exact set)
        rw [fresh] at stays last
        exact set (stays.symm.trans last)
      refine ⟨unset.trans last.symm,rfl,?_⟩
      intro reached otherKey root ctx' h _
      rw [hp] at h
      obtain ⟨same,_⟩ := Prod.mk.inj (Except.ok.inj h)
      obtain ⟨rfl,rfl⟩ := WalletAction.updateInviteCodePublicKey.inj same
      refine ⟨unset,?_⟩
      rw [fresh] at reached
      exact WalletZkView.getStateCommitment_injective (trust.rootsDiffer _ _ _ hp) (by simp)
        (by simp) reached
    · obtain ⟨rfl,_⟩ := Prod.mk.inj (Except.ok.inj batch)
      cases success
  · have fresh : next S quote wallet calldata=wallet := by
      rw [next_update hp,if_neg hk]
    have stays : lastKey S quote wallet (other::calls)=wallet.inviteCodePublicKey :=
      lastKey_of_set addressed hk
    rw [fresh] at batch ⊢
    rw [if_neg (by rw [stays]; exact hk)] at batch
    obtain ⟨_,batch⟩ := Prod.mk.inj (Except.ok.inj batch)
    obtain ⟨rfl,_⟩ := Prod.mk.inj batch
    exact ⟨rfl,rfl,fun _ _ _ _ _ unset => absurd unset hk⟩

/-- The first turn of a batch that has the output of its proof alone, and that ends where the
wallet does, leaves the merged view of the calls after it and keeps the invite key. -/
theorem kept_of_turn [Borsh Proof] (addressed : Addressed ((calldata,blob)::other::calls))
    (trust : Trusted S prove wallet calldata)
    (batch : Guest.turn (zkContract S sha256) quote
      ⟨wallet.getStateCommitment S,lastKey S quote wallet ((calldata,blob)::other::calls),
        partials S quote prove wallet ((calldata,blob)::other::calls)⟩
      (wallet.getStateCommitment S) calldata=.ok (output,after,state))
    (alone : ∃ after state,Guest.turn (zkContract S sha256) quote (wallet.zkView S prove blob)
      (wallet.getStateCommitment S) calldata=.ok (output,after,state))
    (reached : state=(next S quote wallet calldata).getStateCommitment S) :
    KeepsKey S wallet (calldata,blob) ∧
      after=⟨(next S quote wallet calldata).getStateCommitment S,
        lastKey S quote (next S quote wallet calldata) (other::calls),
        partials S quote prove (next S quote wallet calldata) (other::calls)⟩ := by
  have hc : after.commitment=state := turn_commitment batch
  have hb := addressed.head
  have whole (hk : after.inviteCodePublicKey=
        lastKey S quote (next S quote wallet calldata) (other::calls))
      (hp : after.partialData=partials S quote prove (next S quote wallet calldata)
        (other::calls)) :
      after=⟨(next S quote wallet calldata).getStateCommitment S,
        lastKey S quote (next S quote wallet calldata) (other::calls),
        partials S quote prove (next S quote wallet calldata) (other::calls)⟩ := by
    rw [← hk,← hp,← reached,← hc]
  rw [lastKey,partials] at batch
  cases hd : fromSlice WalletAction blob.data with
  | none =>
    obtain ⟨m,hp⟩ := parse_of_undecoded hb hd
    rw [turn_undecoded _ _ hp] at batch
    obtain ⟨_,batch⟩ := Prod.mk.inj (Except.ok.inj batch)
    obtain ⟨rfl,_⟩ := Prod.mk.inj batch
    refine ⟨?_,whole rfl ?_⟩
    · intro _ _ _ h
      rw [hp] at h
      cases h
    · rw [zkView_without (by rw [hd]; rfl),List.append_nil]
  | some action =>
    have hp := parse_of_decoded hb hd
    cases hn : action.account? with
    | none =>
      cases action with
      | updateInviteCodePublicKey key smtRoot =>
        have without : (fromSlice WalletAction blob.data).bind WalletAction.account?=none := by
          rw [hd]
          rfl
        have kept := kept_of_turn_update addressed.tail trust hp without batch alone
        refine ⟨kept.2.2 reached,whole kept.1 ?_⟩
        rw [kept.2.1,zkView_without without,List.append_nil]
      | _ => cases hn
    | some acc =>
      have taken : _ ∧ after.partialData=partials S quote prove (next S quote wallet calldata)
          (other::calls) :=
        turn_account (d := supplied prove wallet acc) hp hn (by rw [zkView_account hd hn]) batch
      refine ⟨?_,whole taken.1 taken.2⟩
      intro key smtRoot ctx h
      rw [hp] at h
      obtain ⟨rfl,_⟩ := Prod.mk.inj (Except.ok.inj h)
      cases hn

end Steps

/-- The circuit turns on the merged view as on the view of the executor, which it takes last. -/
theorem turn_merged {calldata : Calldata} {blob : Blob} (later : List (PartialWalletData Proof))
    (hb : calldata.blobs.get calldata.index=some blob) :
    Guest.turn (zkContract S sha256) quote
        ⟨wallet.getStateCommitment S,wallet.inviteCodePublicKey,
          later++(wallet.zkView S prove blob).partialData⟩
        (wallet.getStateCommitment S) calldata=
      (Guest.turn (zkContract S sha256) quote (wallet.zkView S prove blob)
        (wallet.getStateCommitment S) calldata).map
          (fun p => (p.1,p.2.1.withLater later,p.2.2)) := by
  show Guest.turn _ quote ((wallet.zkView S prove blob).withLater later) _ calldata=_
  refine WalletZkView.turn_withLater _ later ?_
  intro action ctx hp hn
  obtain ⟨other,ho,hd,_⟩ := parseRawCalldata_eq_ok.mp hp
  obtain rfl : blob=other := Option.some.inj (hb.symm.trans ho)
  obtain ⟨acc,hacc⟩ := Option.ne_none_iff_exists'.mp hn
  rw [zkView_account hd hacc]
  exact List.cons_ne_nil _ _

section Turned
variable [Borsh Proof] {metadata : List (Bytes × Calldata)}

theorem withMetadata_cons {calldata : Calldata} {blob : Blob} :
    withMetadata S quote prove wallet ((calldata,blob)::calls)=.ok metadata ↔
      ∃ bs rest,Borsh.ser (wallet.zkView S prove blob)=some bs ∧
        withMetadata S quote prove (next S quote wallet calldata) calls=.ok rest ∧
        metadata=(bs,calldata)::rest := by
  simp only [withMetadata,Outcome.bind_eq_ok,Outcome.pure_eq_ok,buildCommitmentMetadata,
    Outcome.fromOption_eq_ok]
  constructor
  · intro h
    obtain ⟨bs,hb,rest,hr,hm⟩ := h
    exact ⟨bs,rest,hb,hr,hm.symm⟩
  · intro h
    obtain ⟨bs,rest,hb,hr,hm⟩ := h
    exact ⟨bs,hb,rest,hr,hm.symm⟩

/-- The metadata of each call is its view, which is there for every call. -/
theorem exists_withMetadata (addressed : Addressed calls)
    (trust : Along S quote (fun wallet call => Trusted S prove wallet call.1) wallet calls) :
    ∃ metadata,withMetadata S quote prove wallet calls=.ok metadata := by
  induction calls generalizing wallet with
  | nil => exact ⟨[],rfl⟩
  | cons call calls ih =>
    obtain ⟨bs,hm⟩ := exists_metadata addressed.head trust.1
    obtain ⟨rest,hr⟩ := ih addressed.tail trust.2
    exact ⟨_,withMetadata_cons.mpr ⟨bs,rest,Outcome.fromOption_eq_ok.mp hm,hr,rfl⟩⟩

variable (S quote prove) in
/-- The metadata is that of the calls, each with its view. -/
structure Prepared (wallet : Wallet sha256) (calls : List Call)
    (metadata : List (Bytes × Calldata)) : Prop where
  calldata : metadata.map Prod.snd=calls.map Prod.fst
  written : List.Forall₂ (fun view bs => Borsh.ser view=some bs)
    (views S quote prove wallet calls) (metadata.map Prod.fst)

theorem prepared_of_withMetadata (hm : withMetadata S quote prove wallet calls=.ok metadata) :
    Prepared S quote prove wallet calls metadata := by
  induction calls generalizing wallet metadata with
  | nil =>
    obtain rfl := Except.ok.inj hm
    exact ⟨rfl,.nil⟩
  | cons call calls ih =>
    obtain ⟨bs,rest,hb,hr,rfl⟩ := withMetadata_cons.mp hm
    have later := ih hr
    exact ⟨by rw [List.map_cons,List.map_cons,later.calldata],.cons hb later.written⟩

variable [LawfulBorsh Proof]

/-- A proof alone has the output of the turn on its view. -/
theorem alone_of_ser {calldata : Calldata} {blob : Blob} {bs : Bytes}
    (hb : Borsh.ser (wallet.zkView S prove blob)=some bs) :
    Guest.alone (zkContract S sha256) quote ((bs,calldata)::metadata)=(do
      let turned ← Guest.turn (zkContract S sha256) quote (wallet.zkView S prove blob)
        (wallet.getStateCommitment S) calldata
      let others ← Guest.alone (zkContract S sha256) quote metadata
      return turned.1::others) :=
  Guest.alone_cons (fromSlice_ser hb) rfl

/-- Where every call but the last keeps the invite key, the batch has the outputs of the
proofs alone. -/
theorem turns_of_keepsKey (addressed : Addressed calls)
    (trust : Along S quote (fun wallet call => Trusted S prove wallet call.1) wallet calls)
    (handled : Along S quote (fun wallet call => Outcome.Quiet (wallet.handle S quote call.1))
      wallet calls)
    (hm : withMetadata S quote prove wallet calls=.ok metadata)
    (keeps : Along S quote (KeepsKey S) wallet calls.dropLast) :
    Guest.turns (zkContract S sha256) quote
        ⟨wallet.getStateCommitment S,wallet.inviteCodePublicKey,
          partials S quote prove wallet calls⟩
        (wallet.getStateCommitment S) (calls.map Prod.fst)=
      Guest.alone (zkContract S sha256) quote metadata := by
  induction calls generalizing wallet metadata with
  | nil =>
    obtain rfl := Except.ok.inj hm
    rfl
  | cons call calls ih =>
    obtain ⟨calldata,blob⟩ := call
    obtain ⟨bs,rest,hb,hr,rfl⟩ := withMetadata_cons.mp hm
    obtain ⟨output,after,state,turned,follows⟩ := turn_zkView addressed.head trust.1 handled.1
    rw [alone_of_ser hb,partials,List.map_cons,Guest.turns,turn_merged _ addressed.head,turned]
    cases calls with
    | nil =>
      obtain rfl := Except.ok.inj hr
      rfl
    | cons other calls =>
      obtain ⟨rfl,rfl⟩ := follows keeps.1
      have tail := ih addressed.tail trust.2 handled.2 hr keeps.2
      simp only [bind,Except.bind,Except.map,WalletZkView.withLater,List.append_nil]
      rw [← tail]

theorem exists_alone (addressed : Addressed calls)
    (trust : Along S quote (fun wallet call => Trusted S prove wallet call.1) wallet calls)
    (handled : Along S quote (fun wallet call => Outcome.Quiet (wallet.handle S quote call.1))
      wallet calls)
    (hm : withMetadata S quote prove wallet calls=.ok metadata) :
    ∃ outputs,Guest.alone (zkContract S sha256) quote metadata=.ok outputs := by
  induction calls generalizing wallet metadata with
  | nil =>
    obtain rfl := Except.ok.inj hm
    exact ⟨[],rfl⟩
  | cons call calls ih =>
    obtain ⟨bs,rest,hb,hr,rfl⟩ := withMetadata_cons.mp hm
    obtain ⟨output,after,state,turned,_⟩ := turn_zkView addressed.head trust.1 handled.1
    obtain ⟨outputs,ho⟩ := ih addressed.tail trust.2 handled.2 hr
    refine ⟨output::outputs,?_⟩
    rw [alone_of_ser hb,turned,ho]
    rfl

/-- The first of the outputs alone starts at the state of the wallet. -/
theorem initialState_of_alone {output : HyleOutput} {outputs : List HyleOutput} {call : Call}
    (hm : withMetadata S quote prove wallet (call::calls)=.ok metadata)
    (ha : Guest.alone (zkContract S sha256) quote metadata=.ok (output::outputs)) :
    output.initialState=wallet.getStateCommitment S := by
  obtain ⟨bs,rest,hb,hr,rfl⟩ := withMetadata_cons.mp hm
  rw [alone_of_ser hb] at ha
  obtain ⟨⟨first,after,state⟩,turned,ha⟩ := Outcome.bind_eq_ok.mp ha
  obtain ⟨others,_,ha⟩ := Outcome.bind_eq_ok.mp ha
  obtain ⟨rfl,_⟩ := List.cons.inj (Outcome.pure_eq_ok.mp ha)
  exact (Guest.turn_settles turned).1

/-- Where the batch has the outputs of the proofs alone, every call but the last keeps the
invite key. -/
theorem keepsKey_of_turns (addressed : Addressed calls)
    (trust : Along S quote (fun wallet call => Trusted S prove wallet call.1) wallet calls)
    (handled : Along S quote (fun wallet call => Outcome.Quiet (wallet.handle S quote call.1))
      wallet calls)
    (hm : withMetadata S quote prove wallet calls=.ok metadata)
    (same : Guest.turns (zkContract S sha256) quote
        ⟨wallet.getStateCommitment S,lastKey S quote wallet calls,
          partials S quote prove wallet calls⟩
        (wallet.getStateCommitment S) (calls.map Prod.fst)=
      Guest.alone (zkContract S sha256) quote metadata) :
    Along S quote (KeepsKey S) wallet calls.dropLast := by
  induction calls generalizing wallet metadata with
  | nil => trivial
  | cons call calls ih =>
    cases calls with
    | nil => trivial
    | cons other calls =>
      obtain ⟨calldata,blob⟩ := call
      obtain ⟨bs,rest,hb,hr,rfl⟩ := withMetadata_cons.mp hm
      obtain ⟨output,after,state,turned,_⟩ := turn_zkView addressed.head trust.1 handled.1
      obtain ⟨others,ho⟩ := exists_alone addressed.tail trust.2 handled.2 hr
      rw [alone_of_ser hb,turned,ho] at same
      obtain ⟨output',after',state',tail,batch,later,eq⟩ := Guest.turns_cons.mp same
      obtain ⟨rfl,rfl⟩ := List.cons.inj eq
      -- the second output tells where the first turn of the batch has ended
      obtain ⟨second,_,_,outputs,started,_,rfl⟩ := Guest.turns_cons.mp later
      have reached : state'=(next S quote wallet calldata).getStateCommitment S := by
        rw [← (Guest.turn_settles started).1,initialState_of_alone hr ho]
      obtain ⟨keeps,rfl⟩ := kept_of_turn addressed trust.1 batch ⟨after,state,turned⟩ reached
      refine ⟨keeps,ih addressed.tail trust.2 handled.2 hr ?_⟩
      rw [ho,← later,reached]

omit [LawfulBorsh Proof] in
theorem exists_ser_partials (hm : withMetadata S quote prove wallet calls=.ok metadata) :
    ∀ d∈partials S quote prove wallet calls,∃ bs,Borsh.ser d=some bs := by
  induction calls generalizing wallet metadata with
  | nil => simp [partials]
  | cons call calls ih =>
    obtain ⟨bs,rest,hb,hr,rfl⟩ := withMetadata_cons.mp hm
    have here := (WalletZkView.exists_ser_view.mp ⟨bs,hb⟩).2.2
    intro d hd
    obtain later|own := List.mem_append.mp hd
    · exact ih hr d later
    · exact here d own

/-- The merged metadata has the length of its partial data in four bytes. -/
theorem exists_merged_iff {call : Call} {first : Bytes × Calldata}
    {rest : List (Bytes × Calldata)}
    (hm : withMetadata S quote prove wallet (call::calls)=.ok (first::rest)) {merged : Bytes} :
    (rest.map Prod.fst).foldlM (mergeCommitmentMetadata Proof) first.1=.ok merged ↔
      Borsh.ser (⟨wallet.getStateCommitment S,lastKey S quote wallet (call::calls),
        partials S quote prove wallet (call::calls)⟩ : WalletZkView Proof)=some merged := by
  obtain ⟨bs,others,hb,hr,eq⟩ := withMetadata_cons.mp hm
  obtain ⟨rfl,rfl⟩ := List.cons.inj eq
  rw [← foldl_merge_views call calls,
    WalletZkView.foldlM_mergeCommitmentMetadata hb (prepared_of_withMetadata hr).written]

omit [LawfulBorsh Proof] in
theorem exists_ser_merged_iff (hm : withMetadata S quote prove wallet calls=.ok metadata) :
    (∃ bs,Borsh.ser (⟨wallet.getStateCommitment S,lastKey S quote wallet calls,
      partials S quote prove wallet calls⟩ : WalletZkView Proof)=some bs) ↔
      (calls.filter namesAccount).length<2^32 := by
  rw [WalletZkView.exists_ser_view,length_partials]
  have written := exists_ser_commitment sha256 (S.root wallet.smt.leaf)
    wallet.inviteCodePublicKey
  exact ⟨fun h => h.2.1,fun h => ⟨written,h,exists_ser_partials hm⟩⟩

/-- One proof for a batch has the outputs of the proofs for each call exactly if the partial
data can be counted in 32 bits and no call but the last accepts a change of the invite key
that changes anything: the merged view starts with the invite key before the last call, and
the turn on such a change takes the root that the blob names. -/
theorem batchTransparent_iff (hne : calls≠[]) (addressed : Addressed calls)
    (trust : Along S quote (fun wallet call => Trusted S prove wallet call.1) wallet calls)
    (handled : Along S quote (fun wallet call => Outcome.Quiet (wallet.handle S quote call.1))
      wallet calls) :
    BatchTransparent S quote prove wallet calls ↔ (calls.filter namesAccount).length<2^32 ∧
      Along S quote (KeepsKey S) wallet calls.dropLast := by
  obtain ⟨metadata,hm⟩ := exists_withMetadata addressed trust
  cases calls with
  | nil => exact absurd rfl hne
  | cons call calls =>
    obtain ⟨bs,rest,_,_,rfl⟩ := withMetadata_cons.mp hm
    have started {merged : Bytes} (h : Borsh.ser (⟨wallet.getStateCommitment S,
          lastKey S quote wallet (call::calls),partials S quote prove wallet (call::calls)⟩ :
          WalletZkView Proof)=some merged) :
        Guest.execute (zkContract S sha256) quote merged ((call::calls).map Prod.fst)=
          Guest.turns (zkContract S sha256) quote
            ⟨wallet.getStateCommitment S,lastKey S quote wallet (call::calls),
              partials S quote prove wallet (call::calls)⟩
            (wallet.getStateCommitment S) ((call::calls).map Prod.fst) :=
      Guest.execute_started (fromSlice_ser h) rfl _
    rw [← exists_ser_merged_iff hm]
    constructor
    · intro h
      obtain ⟨first,others,hw,merged,hf,same⟩ := h
      obtain ⟨rfl,rfl⟩ := List.cons.inj (Except.ok.inj (hm.symm.trans hw))
      have hs := (exists_merged_iff hm).mp hf
      rw [(prepared_of_withMetadata hm).calldata,started hs] at same
      exact ⟨⟨merged,hs⟩,keepsKey_of_turns addressed trust handled hm same⟩
    · intro h
      obtain ⟨⟨merged,hs⟩,keeps⟩ := h
      refine ⟨_,_,hm,merged,(exists_merged_iff hm).mpr hs,?_⟩
      rw [(prepared_of_withMetadata hm).calldata,started hs,lastKey_eq addressed keeps]
      exact turns_of_keepsKey addressed trust handled hm keeps

end Turned
end Batches

namespace FirstBlobs

open WalletZkView.Registration (tree)

/-- A blob that is not an action, and the registration of an account after it. -/
def calls : List Call :=
  [(calldata,blob),(WalletZkView.Registration.calldata,
    ⟨"wallet",(Borsh.ser WalletZkView.Registration.action).getD []⟩)]

theorem parse_calldata : parseRawCalldata WalletAction calldata=
    .error (.err "Could not deserialize Blob at index 0") := rfl

theorem trusted_calldata : Trusted tree prove wallet calldata where
  recovers := by
    intro acc h
    obtain ⟨_,_,hp,_⟩ := h
    cases parse_calldata.symm.trans hp
  written := fun acc _ => ⟨[],rfl⟩
  keyed := by simp [wallet,Store.empty]
  namesDiffer := by simp [wallet,Store.empty]
  rootsDiffer := by
    intro _ _ _ hp
    cases parse_calldata.symm.trans hp

theorem next_calldata : next tree quote wallet calldata=wallet := next_undecoded parse_calldata

theorem addressed_calls : Addressed calls := by
  intro call hc
  obtain rfl|hc := List.mem_cons.mp hc
  · rfl
  · obtain rfl := List.mem_singleton.mp hc
    rfl

theorem quiet_calls : Outcome.Quiet (wallet.handle tree quote calldata) ∧
    Outcome.Quiet (wallet.handle tree quote WalletZkView.Registration.calldata) := by
  have run : (wallet.handle tree quote calldata).panics=false ∧
      (wallet.handle tree quote WalletZkView.Registration.calldata).panics=false := by
    decide +kernel
  constructor
  · intro m h
    rw [h] at run
    exact Bool.noConfusion run.1
  · intro m h
    rw [h] at run
    exact Bool.noConfusion run.2

end FirstBlobs

open FirstBlobs in
/-- One proof for the two blobs has the outputs of the two proofs. -/
theorem batchTransparent_calls :
    BatchTransparent WalletZkView.Registration.tree quote prove wallet calls := by
  refine (batchTransparent_iff (List.cons_ne_nil _ _) addressed_calls ?_ ?_).mpr
    ⟨by decide,?_,trivial⟩
  · refine ⟨trusted_calldata,?_,trivial⟩
    rw [next_calldata]
    exact trusted
  · refine ⟨quiet_calls.1,?_,trivial⟩
    rw [next_calldata]
    exact quiet_calls.2
  · intro _ _ _ h
    cases parse_calldata.symm.trans h

end TruthSeeker.WalletClient.Wallet
