import TruthSeeker.Sdk.Guest
import TruthSeeker.Wallet.Handlers
import TruthSeeker.Wallet.Soundness
import TruthSeeker.Wallet.ZkView

namespace TruthSeeker.Wallet

open Borsh Sdk SparseMerkle

variable {Proof : Type}

def PartialWalletData.layout : Layout (PartialWalletData Proof) (Proof × AccountInfo) where
  fields d := (d.proof,d.accountInfo)
  make := fun (proof,accountInfo) => ⟨proof,accountInfo⟩
  make_fields _ := rfl

instance [Borsh Proof] : Borsh (PartialWalletData Proof) := PartialWalletData.layout.borsh
instance [Borsh Proof] [LawfulBorsh Proof] : LawfulBorsh (PartialWalletData Proof) :=
  PartialWalletData.layout.lawful

def WalletZkView.layout : Layout (WalletZkView Proof)
    (StateCommitment × InviteCodePubKey × List (PartialWalletData Proof)) where
  fields v := (v.commitment,v.inviteCodePublicKey,v.partialData)
  make := fun (commitment,inviteCodePublicKey,partialData) =>
    ⟨commitment,inviteCodePublicKey,partialData⟩
  make_fields _ := rfl

instance [Borsh Proof] : Borsh (WalletZkView Proof) := WalletZkView.layout.borsh
instance [Borsh Proof] [LawfulBorsh Proof] : LawfulBorsh (WalletZkView Proof) :=
  WalletZkView.layout.lawful

/-- The later view, with the commitment and the partial data of the earlier one. -/
def WalletZkView.merge (initialView nextView : WalletZkView Proof) :
    WalletZkView Proof :=
  { nextView with
    partialData := nextView.partialData++initialView.partialData
    commitment := initialView.commitment }

/-- The wallet as the circuit runs it. Only the commitment is restored after a failure:
neither the invite key nor the partial data are. -/
def zkContract (S : Scheme H256 H256 H256 Proof) (sha256 : Bytes → H256) :
    TransactionalZkContract (WalletZkView Proof) where
  execute view calldata := WalletZkView.execute S sha256 view calldata
  commit view := view.commitment
  initializeContract view := (.ok (),view)
  State := StateCommitment
  initialState view := view.commitment
  revert view initialState := { view with commitment := initialState }
  onSuccess view := (view.commitment,view)
  commit_revert _ _ := rfl

end TruthSeeker.Wallet

namespace TruthSeeker.WalletClient

open TruthSeeker.Wallet Bytes Borsh Sdk SparseMerkle

/-- The wallet outside of the circuit, with all its accounts. -/
structure Wallet (sha256 : Bytes → H256) where
  inviteCodePublicKey : InviteCodePubKey
  smt : AccountSMT sha256
  salts : Std.ExtTreeMap String String

namespace Wallet

variable {Proof : Type} (S : Scheme H256 H256 H256 Proof) {sha256 : Bytes → H256}

def getStateCommitment (self : Wallet sha256) : StateCommitment :=
  TruthSeeker.Wallet.getStateCommitment sha256 (S.root self.smt.leaf) self.inviteCodePublicKey

/-- The account under the key of a name, with this name as its identity. -/
def accountInfo (self : Wallet sha256) (acc : String) : AccountInfo :=
  { self.smt.values[AccountInfo.computeKey sha256 acc]?.getD AccountInfo.default with
    identity := acc }

/-- The handler on the account of the action. A missing invitation is an early return;
any other error is the result of the action. -/
def result (self : Wallet sha256) (acc : String) (action : WalletAction) (calldata : Calldata) :
    Outcome (Except String (String × AccountInfo) × Std.ExtTreeMap String String) :=
  match action with
  | .registerIdentity account nonce salt authMethod inviteCode => do
    checkForInviteCode sha256 account inviteCode calldata self.inviteCodePublicKey
    let res ← Outcome.caught
      ((self.accountInfo acc).handleRegistration account nonce authMethod calldata)
    return (res,self.salts.insert account salt)
  | .useSessionKey account nonce => do
    let res ← Outcome.caught
      ((self.accountInfo acc).handleSessionKeyUsage sha256 account nonce calldata)
    return (res,self.salts)
  | action => do
    let res ← Outcome.caught ((self.accountInfo acc).handleAuthenticatedAction action calldata)
    return (res,self.salts)

/-- Every early return leaves the wallet as it was. -/
def actualHandle (quote : String → String) (self : Wallet sha256) (calldata : Calldata) :
    Outcome (HyleOutput × Wallet sha256) := do
  let initialStateCommitment := self.getStateCommitment S
  let (action,execCtx) ← parseRawCalldata WalletAction calldata
  match action with
  | .updateInviteCodePublicKey inviteCodePublicKey _ =>
    Outcome.ensure (self.inviteCodePublicKey=defaultInviteCodePublicKey)
      "Invite code public key already set"
    let self := { self with inviteCodePublicKey := inviteCodePublicKey }
    return (asHyleOutput quote initialStateCommitment (self.getStateCommitment S) calldata
      (.ok (utf8 "Updated public key",execCtx,[])),self)
  | action =>
    let acc ← Outcome.fromOption action.account?
      (.panic "internal error: entered unreachable code")
    let (result,salts) ← self.result acc action calldata
    let accountInfo := match result with
      | .ok (_,accountInfo) => accountInfo
      | .error _ => self.accountInfo acc
    let smt ← Outcome.fromOption
      (self.smt.update (AccountInfo.computeKey sha256 acc) accountInfo)
      (.panic "called `Result::unwrap()` on an `Err` value")
    let self := { self with smt := smt, salts := salts }
    return (asHyleOutput quote initialStateCommitment (self.getStateCommitment S) calldata
      (result.map (fun p => (utf8 p.1,execCtx,[]))),self)

def handle (quote : String → String) (self : Wallet sha256) (calldata : Calldata) :
    Outcome (HyleOutput × Wallet sha256) :=
  match self.actualHandle S quote calldata with
  | .error (.err e) => Outcome.err s!"Failed to handle Wallet action: {e}"
  | handled => handled

/-- The data of the account that the blob names; an invite key and a blob without an
action have none. -/
def zkView (prove : (H256 → H256) → List H256 → Proof) (self : Wallet sha256) (blob : Blob) :
    WalletZkView Proof where
  commitment := self.getStateCommitment S
  inviteCodePublicKey := self.inviteCodePublicKey
  partialData :=
    match (fromSlice WalletAction blob.data).bind WalletAction.account? with
    | some account =>
      [⟨prove self.smt.leaf [AccountInfo.computeKey sha256 account],self.accountInfo account⟩]
    | none => []

def buildCommitmentMetadata [Borsh Proof] (prove : (H256 → H256) → List H256 → Proof)
    (self : Wallet sha256) (blob : Blob) : Outcome Bytes :=
  Outcome.fromOption (Borsh.ser (self.zkView S prove blob))
    (.err "Failed to serialize WalletZkView for commitment metadata")

def mergeCommitmentMetadata (Proof : Type) [Borsh Proof] (initial next : Bytes) :
    Outcome Bytes := do
  let initialView ← Outcome.fromOption (fromSlice (WalletZkView Proof) initial)
    (.err "Failed to deserialize initial view")
  let nextView ← Outcome.fromOption (fromSlice (WalletZkView Proof) next)
    (.err "Failed to deserialize next view")
  Outcome.fromOption (Borsh.ser (initialView.merge nextView))
    (.err "Failed to serialize combined view")

end Wallet

end TruthSeeker.WalletClient
