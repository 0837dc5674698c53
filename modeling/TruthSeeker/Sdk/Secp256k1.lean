import TruthSeeker.Model.Contract

namespace TruthSeeker.Sdk

/-- Data of a blob for the native contract `secp256k1`. -/
structure Secp256k1Blob where
  identity : Identity
  data : ByteVec 32
  publicKey : ByteVec 33
  signature : ByteVec 64
  deriving DecidableEq

def Secp256k1Blob.layout :
    Borsh.Layout Secp256k1Blob (Identity × ByteVec 32 × ByteVec 33 × ByteVec 64) where
  fields b := (b.identity,b.data,b.publicKey,b.signature)
  make := fun (identity,data,publicKey,signature) => ⟨identity,data,publicKey,signature⟩
  make_fields _ := rfl

instance : Borsh Secp256k1Blob := Secp256k1Blob.layout.borsh
instance : LawfulBorsh Secp256k1Blob := Secp256k1Blob.layout.lawful

namespace CheckSecp256k1

/-- The first blob of the native contract must hold the identity of the transaction
and the digest of the expected data. -/
def expect (sha256 : Bytes → H256) (calldata : Calldata) (expectedData : Bytes) :
    Outcome Secp256k1Blob := do
  let secpBlob ← Outcome.fromOption
    ((calldata.blobs.map Prod.snd).find? (fun b => b.contractName="secp256k1"))
    (.err "Missing Secp256k1Blob")
  let secpData ← Outcome.fromOption (Borsh.fromSlice Secp256k1Blob secpBlob.data)
    (.err "Failed to decode Secp256k1Blob")
  Outcome.ensure (secpData.identity=calldata.identity) "Secp256k1Blob identity does not match"
  Outcome.ensure (secpData.data=sha256 expectedData) "Secp256k1Blob data does not match"
  return secpData

/-- The blob that the check reads. -/
def attested (calldata : Calldata) : Option Secp256k1Blob :=
  ((calldata.blobs.map Prod.snd).find? (fun b => b.contractName="secp256k1")).bind
    (fun b => Borsh.fromSlice Secp256k1Blob b.data)

theorem expect_eq_ok {sha256 : Bytes → H256} {calldata : Calldata} {expectedData : Bytes}
    {blob : Secp256k1Blob} :
    expect sha256 calldata expectedData=.ok blob ↔
      attested calldata=some blob ∧ blob.identity=calldata.identity ∧
        blob.data=sha256 expectedData := by
  simp only [expect,Outcome.bind_eq_ok,Outcome.fromOption_eq_ok,Outcome.ensure_eq_ok,
    Outcome.pure_eq_ok,attested,Option.bind_eq_some_iff]
  constructor
  · rintro ⟨b,hb,d,hd,_,hi,_,hs,rfl⟩
    exact ⟨⟨b,hb,hd⟩,hi,hs⟩
  · rintro ⟨⟨b,hb,hd⟩,hi,hs⟩
    exact ⟨b,hb,blob,hd,(),hi,(),hs,rfl⟩

end CheckSecp256k1

end TruthSeeker.Sdk
