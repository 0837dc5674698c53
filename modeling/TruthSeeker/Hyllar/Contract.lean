import TruthSeeker.Sdk.Utils
import TruthSeeker.Sdk.Guest

namespace TruthSeeker

open Bytes Borsh Sdk

instance instOrdStringPair : Ord (String × String) := lexOrd

inductive HyllarAction where
  | totalSupply
  | balanceOf (account : String)
  | transfer (recipient : String) (amount : U128)
  | transferFrom (owner recipient : String) (amount : U128)
  | approve (spender : String) (amount : U128)
  | allowance (owner spender : String)
  deriving DecidableEq

instance : Borsh HyllarAction where
  ser | .totalSupply => some [0]
      | .balanceOf account => tagged 1 account
      | .transfer recipient amount => tagged 2 (recipient,amount)
      | .transferFrom owner recipient amount => tagged 3 (owner,recipient,amount)
      | .approve spender amount => tagged 4 (spender,amount)
      | .allowance owner spender => tagged 5 (owner,spender)
  de | 0::bs => some (.totalSupply,bs)
     | 1::bs => payload .balanceOf bs
     | 2::bs => payload (fun (p : String × U128) => .transfer p.1 p.2) bs
     | 3::bs => payload (fun (p : String × String × U128) =>
         .transferFrom p.1 p.2.1 p.2.2) bs
     | 4::bs => payload (fun (p : String × U128) => .approve p.1 p.2) bs
     | 5::bs => payload (fun (p : String × String) => .allowance p.1 p.2) bs
     | _ => none

/-- The Hyllar token. -/
structure Hyllar where
  totalSupply : U128
  balances : Std.ExtTreeMap String U128
  /-- Allowances by owner and spender. -/
  allowances : Std.ExtTreeMap (String × String) U128

def Hyllar.layout : Borsh.Layout Hyllar
    (U128 × Std.ExtTreeMap String U128 × Std.ExtTreeMap (String × String) U128) where
  fields h := (h.totalSupply,h.balances,h.allowances)
  make := fun (totalSupply,balances,allowances) => ⟨totalSupply,balances,allowances⟩
  make_fields _ := rfl

instance : Borsh Hyllar := Hyllar.layout.borsh
instance : LawfulBorsh Hyllar := Hyllar.layout.lawful

namespace Hyllar

def TOTAL_SUPPLY : U128 := 100000000000000

def FAUCET_ID : String := "faucet@hydentity"

def custom (faucetId : String) : Hyllar := ⟨TOTAL_SUPPLY,(∅ : Std.ExtTreeMap String U128).insert
  faucetId TOTAL_SUPPLY,∅⟩

def default : Hyllar := custom FAUCET_ID

variable (self : Hyllar)

def balanceOf (account : String) : Except String U128 :=
  match self.balances[account]? with
  | some balance => .ok balance
  | none => .error s!"Account {account} not found"

def allowance (owner spender : String) : U128 := self.allowances.getD (owner,spender) 0

/-- `entry(account).or_insert(0)`, then the operation on the value. -/
def adjust (account : String) (change : U128 → U128) : Hyllar :=
  { self with balances := self.balances.insert account (change (self.balances.getD account 0)) }

/-- The two updates that move an amount. An account may be both of them. -/
def move (sender recipient : String) (amount : U128) : Hyllar :=
  (self.adjust sender (·-amount)).adjust recipient (·+amount)

def transfer (sender recipient : String) (amount : U128) : Except String Unit × Hyllar :=
  match self.balanceOf sender with
  | .error e => (.error e,self)
  | .ok senderBalance =>
      if senderBalance<amount then (.error "Insufficient balance",self)
      else (.ok (),self.move sender recipient amount)

def transferFrom (owner spender recipient : String) (amount : U128) :
    Except String Unit × Hyllar :=
  let allowance := self.allowance owner spender
  match self.balanceOf owner with
  | .error e => (.error e,self)
  | .ok senderBalance =>
      if allowance<amount then
        (.error s!"Allowance exceeded for spender={spender} owner={owner} allowance={allowance.toNat}",
          self)
      else if senderBalance<amount then (.error "Insufficient balance",self)
      else
        let moved := self.move owner recipient amount
        (.ok (),
          { moved with allowances := moved.allowances.insert (owner,spender) (allowance-amount) })

def approve (owner spender : String) (amount : U128) : Except String Unit × Hyllar :=
  (.ok (),{ self with allowances := self.allowances.insert (owner,spender) amount })

def executeTokenAction (action : HyllarAction) (executionCtx : ExecutionContext) :
    Except String String × Hyllar :=
  let caller := executionCtx.caller
  match action with
  | .totalSupply => (.ok s!"Total Supply: {self.totalSupply.toNat}",self)
  | .balanceOf account =>
      ((self.balanceOf account).map fun balance => s!"Balance of {account}: {balance.toNat}",self)
  | .transfer recipient amount =>
      let (output,next) := self.transfer caller recipient amount
      (output.map fun _ => s!"Transferred {amount.toNat} to {recipient}",next)
  | .transferFrom owner recipient amount =>
      let (output,next) := self.transferFrom owner caller recipient amount
      (output.map fun _ => s!"Transferred {amount.toNat} from {owner} to {recipient}",next)
  | .approve spender amount =>
      let (output,next) := self.approve caller spender amount
      (output.map fun _ => s!"Approved {amount.toNat} for {spender}",next)
  | .allowance owner spender =>
      (.ok s!"Allowance of {spender} by {owner}: {(self.allowance owner spender).toNat}",self)

def execute (calldata : Calldata) : Outcome (Bytes × ExecutionContext × List OnchainEffect) × Hyllar :=
  match parseCalldata HyllarAction calldata with
  | .error fault => (.error fault,self)
  | .ok (action,executionCtx) =>
      let (output,next) := self.executeTokenAction action executionCtx
      (Outcome.fromExcept (output.map fun text => (utf8 text,executionCtx,[])) .err,next)

/-- What the commitment hashes. -/
def preimage : Bytes :=
  ofNatLE 16 self.totalSupply.toNat++
  self.balances.toList.flatMap (fun p => utf8 p.1++ofNatLE 16 p.2.toNat)++
  self.allowances.toList.flatMap (fun p => utf8 p.1.1++utf8 p.1.2++ofNatLE 16 p.2.toNat)

def commit (sha256 : Bytes → H256) : StateCommitment := (sha256 self.preimage).toList

end Hyllar

/-- The contract as the circuit and the executor run it. -/
def hyllar (sha256 : Bytes → H256) : ZkContract Hyllar where
  execute := Hyllar.execute
  commit self := self.commit sha256
  initializeContract self := (.ok (),self)

end TruthSeeker
