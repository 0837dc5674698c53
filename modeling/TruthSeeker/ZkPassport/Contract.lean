import TruthSeeker.Sdk.Guest

namespace TruthSeeker

open Bytes Borsh Sdk

structure CompareAgeEvm where
  currentDate : String
  minAge : UInt8
  maxAge : UInt8
  deriving DecidableEq

structure BindEvmData where
  userAddress : String
  customData : String
  deriving DecidableEq

structure BindEvm where
  data : BindEvmData
  deriving DecidableEq

structure CommittedInputs where
  compareAgeEvm : CompareAgeEvm
  bindEvm : BindEvm
  deriving DecidableEq

structure ZKPassportProof where
  proof : String
  vkeyHash : String
  name : String
  version : String
  committedInputs : CommittedInputs
  deriving DecidableEq

structure VerifiedUser where
  uniqueId : String
  userAddress : String
  verifiedAt : String
  ageVerified : Bool
  customData : String
  deriving DecidableEq

structure ZKPassport where
  verifiedUsers : List VerifiedUser
  deriving DecidableEq

inductive ZKPassportAction where
  | verifyIdentity (proof : ZKPassportProof) (hyliIdentity : String)
  | checkVerification (userAddress : String)
  deriving DecidableEq

section Formats

def CompareAgeEvm.layout : Layout CompareAgeEvm (String × UInt8 × UInt8) where
  fields c := (c.currentDate,c.minAge,c.maxAge)
  make := fun (currentDate,minAge,maxAge) => ⟨currentDate,minAge,maxAge⟩
  make_fields _ := rfl

def BindEvmData.layout : Layout BindEvmData (String × String) where
  fields d := (d.userAddress,d.customData)
  make := fun (userAddress,customData) => ⟨userAddress,customData⟩
  make_fields _ := rfl

instance : Borsh CompareAgeEvm := CompareAgeEvm.layout.borsh
instance : Borsh BindEvmData := BindEvmData.layout.borsh

def BindEvm.layout : Layout BindEvm BindEvmData := ⟨BindEvm.data,BindEvm.mk,fun _ => rfl⟩

instance : Borsh BindEvm := BindEvm.layout.borsh

def CommittedInputs.layout : Layout CommittedInputs (CompareAgeEvm × BindEvm) where
  fields c := (c.compareAgeEvm,c.bindEvm)
  make := fun (compareAgeEvm,bindEvm) => ⟨compareAgeEvm,bindEvm⟩
  make_fields _ := rfl

instance : Borsh CommittedInputs := CommittedInputs.layout.borsh

def ZKPassportProof.layout : Layout ZKPassportProof
    (String × String × String × String × CommittedInputs) where
  fields p := (p.proof,p.vkeyHash,p.name,p.version,p.committedInputs)
  make := fun (proof,vkeyHash,name,version,committedInputs) =>
    ⟨proof,vkeyHash,name,version,committedInputs⟩
  make_fields _ := rfl

instance : Borsh ZKPassportProof := ZKPassportProof.layout.borsh

def VerifiedUser.layout : Layout VerifiedUser (String × String × String × Bool × String) where
  fields u := (u.uniqueId,u.userAddress,u.verifiedAt,u.ageVerified,u.customData)
  make := fun (uniqueId,userAddress,verifiedAt,ageVerified,customData) =>
    ⟨uniqueId,userAddress,verifiedAt,ageVerified,customData⟩
  make_fields _ := rfl

instance : Borsh VerifiedUser := VerifiedUser.layout.borsh
instance : LawfulBorsh VerifiedUser := VerifiedUser.layout.lawful

def ZKPassport.layout : Layout ZKPassport (List VerifiedUser) :=
  ⟨ZKPassport.verifiedUsers,ZKPassport.mk,fun _ => rfl⟩

instance : Borsh ZKPassport := ZKPassport.layout.borsh
instance : LawfulBorsh ZKPassport := ZKPassport.layout.lawful

instance : Borsh ZKPassportAction where
  ser | .verifyIdentity proof hyliIdentity => tagged 0 (proof,hyliIdentity)
      | .checkVerification userAddress => tagged 1 userAddress
  de | 0::bs => payload (fun (p : ZKPassportProof × String) => .verifyIdentity p.1 p.2) bs
     | 1::bs => payload .checkVerification bs
     | _ => none

end Formats

def ZKPassportProof.userAddress (self : ZKPassportProof) : String :=
  self.committedInputs.bindEvm.data.userAddress

namespace ZKPassport

variable (self : ZKPassport)

def default : ZKPassport := ⟨[]⟩

/-- `zkp_{:016x}` of the length of the address in bytes. -/
def uniqueIdOf (userAddress : String) : String :=
  "zkp_"++hex (ofNatLE 8 (utf8 userAddress).length).reverse

/-- The identity that comes with the proof is not read. -/
def verifyIdentity (proof : ZKPassportProof) (_hyliIdentity : String) :
    Except String Bytes × ZKPassport :=
  if proof.name≠"outer_evm_count_5" then (.error "Invalid proof name",self)
  else if proof.committedInputs.compareAgeEvm.minAge<18 then
    (.error "Age requirement not met",self)
  else if ¬['0','x'].isPrefixOf proof.userAddress.toList then
    (.error "Invalid user address format",self)
  else if self.verifiedUsers.any fun u => u.userAddress=proof.userAddress then
    (.ok (utf8 "User already verified"),self)
  else
    let uniqueId := uniqueIdOf proof.userAddress
    let verifiedUser : VerifiedUser := ⟨uniqueId,proof.userAddress,
      proof.committedInputs.compareAgeEvm.currentDate,true,
      proof.committedInputs.bindEvm.data.customData⟩
    (.ok (utf8 s!"Successfully verified user {proof.userAddress} with ID {uniqueId}"),
      ⟨self.verifiedUsers++[verifiedUser]⟩)

def getVerifiedUser (userAddress : String) : Option VerifiedUser :=
  self.verifiedUsers.find? fun u => u.userAddress=userAddress

/-- The answer for an address that is verified. -/
def verifiedText (userAddress uniqueId verifiedAt : String) : String :=
  "User "++userAddress++" is verified. ID: "++uniqueId++", Verified at: "++verifiedAt

def checkVerification (userAddress : String) : Except String Bytes :=
  match self.getVerifiedUser userAddress with
  | some user => .ok (utf8 (verifiedText user.userAddress user.uniqueId user.verifiedAt))
  | none => .ok (utf8 ("User "++userAddress++" is not verified"))

def runAction : ZKPassportAction → Except String Bytes × ZKPassport
  | .verifyIdentity proof hyliIdentity => self.verifyIdentity proof hyliIdentity
  | .checkVerification userAddress => (self.checkVerification userAddress,self)

def execute (calldata : Calldata) :
    Outcome (Bytes × ExecutionContext × List OnchainEffect) × ZKPassport :=
  match parseRawCalldata ZKPassportAction calldata with
  | .error fault => (.error fault,self)
  | .ok (action,ctx) =>
      let (res,next) := self.runAction action
      (Outcome.fromExcept (res.map fun out => (out,ctx,[])) .err,next)

/-- The commitment is the whole state. -/
def commit : Outcome StateCommitment :=
  Outcome.fromOption (ser self) (.panic "Failed to encode ZKPassport")

/-- `From<StateCommitment>`. -/
def fromCommitment (state : StateCommitment) : Outcome ZKPassport :=
  Outcome.fromOption (fromSlice ZKPassport state)
    (.panic "called `Result::unwrap()` on an `Err` value: \"Could not decode ZKPassport state\"")

end ZKPassport

end TruthSeeker
