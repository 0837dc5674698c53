import TruthSeeker.Crypto.Blst

namespace TruthSeeker

open Outcome Borsh

/-- The bytes of a message that its header is signed on. -/
class IntoHeaderSignableData (T : Type) where
  toHeaderSignableData : T → Bytes

structure MsgHeader where
  timestamp : TimestampMs
  hash : Bytes
  deriving DecidableEq

structure MsgWithHeader (T : Type) where
  header : SignedByValidator MsgHeader
  msg : T

def MsgHeader.layout : Layout MsgHeader (TimestampMs × Bytes) where
  fields h := (h.timestamp,h.hash)
  make := fun (timestamp,hash) => ⟨timestamp,hash⟩
  make_fields _ := rfl

instance : Borsh MsgHeader := MsgHeader.layout.borsh

def ValidatorSignature.layout : Layout ValidatorSignature (Signature × ValidatorPublicKey) where
  fields s := (s.signature,s.validator)
  make := fun (signature,validator) => ⟨signature,validator⟩
  make_fields _ := rfl

instance : Borsh ValidatorSignature := ValidatorSignature.layout.borsh
instance : LawfulBorsh ValidatorSignature := ValidatorSignature.layout.lawful

def Signed.layout (T V : Type) : Layout (Signed T V) (T × V) where
  fields s := (s.msg,s.signature)
  make := fun (msg,signature) => ⟨msg,signature⟩
  make_fields _ := rfl

instance {T V : Type} [Borsh T] [Borsh V] : Borsh (Signed T V) := (Signed.layout T V).borsh
instance {T V : Type} [Borsh T] [LawfulBorsh T] [Borsh V] [LawfulBorsh V] :
    LawfulBorsh (Signed T V) := (Signed.layout T V).lawful

namespace P2p

section Code
variable {PublicKey BlstSignature T : Type}

/-- The signed bytes are shortened to 12 hexadecimal digits. -/
def debugSignableData (hash : Bytes) : String :=
  if hash.length=0 then "empty"
  else if hash.length<12 then Bytes.hex hash
  else String.ofList ((Bytes.hex hash).toList.take 12)++"..."

/-- The text of a message, from that of its content. -/
def debugMsg (debug : T → String) (msg : MsgWithHeader T) : String :=
  let header := s!"MsgHeader \x7b timestamp: {msg.header.msg.timestamp.toNat}, hash: "++
    debugSignableData msg.header.msg.hash++", \x7d"
  s!"MsgWithHeader \x7b header: {header.quote}, msg: {debug msg.msg} \x7d"

def absDiff (a b : TimestampMs) : TimestampMs := if a<b then b-a else a-b

/-- Messages that are timestamped one hour ahead or back are ignored. -/
def verifyMsgHeader [IntoHeaderSignableData T] (blst : Blst PublicKey BlstSignature)
    (debug : T → String) (now : TimestampMs) (msg : MsgWithHeader T) : Outcome Unit := do
  ensure (absDiff msg.header.msg.timestamp now≤3600000)
    "Message timestamp too far from current time"
  let result ← blst.verifySigned msg.header
  ensure (result=true) s!"Invalid header signature for message {debugMsg debug msg}"
  -- The message matches the signed data.
  ensure (msg.header.msg.hash=IntoHeaderSignableData.toHeaderSignableData msg.msg)
    s!"Invalid signed hash for message {debugMsg debug msg}"

/-- The header is signed, with the time and the signed bytes of the message in it. -/
def signMsgWithHeader [IntoHeaderSignableData T] (crypto : BlstCrypto PublicKey BlstSignature)
    (now : TimestampMs) (msg : T) : Outcome (MsgWithHeader T) := do
  let header ← crypto.sign
    (⟨now,IntoHeaderSignableData.toHeaderSignableData msg⟩ : MsgHeader)
  return ⟨header,msg⟩

/-- The header is recent and has the signature of its validator. -/
def HeaderPasses (blst : Blst PublicKey BlstSignature) (now : TimestampMs)
    (header : SignedByValidator MsgHeader) : Prop :=
  absDiff header.msg.timestamp now≤3600000 ∧ blst.verifySigned header=.ok true

end Code

variable {PublicKey BlstSignature T : Type} [IntoHeaderSignableData T]
  {blst : Blst PublicKey BlstSignature} {debug : T → String} {now : TimestampMs}
  {header : SignedByValidator MsgHeader} {msg : T}

theorem signMsgWithHeader_eq_ok {crypto : BlstCrypto PublicKey BlstSignature}
    {signed : MsgWithHeader T} (hs : signMsgWithHeader crypto now msg=.ok signed) :
    signed.msg=msg ∧
      signed.header.msg=⟨now,IntoHeaderSignableData.toHeaderSignableData msg⟩ := by
  simp only [signMsgWithHeader,BlstCrypto.sign,bind_eq_ok,pure_eq_ok] at hs
  obtain ⟨header,⟨encoded,_,rfl⟩,rfl⟩ := hs
  exact ⟨rfl,rfl⟩

theorem verifyMsgHeader_eq_ok : verifyMsgHeader blst debug now ⟨header,msg⟩=.ok () ↔
    HeaderPasses blst now header ∧
      header.msg.hash=IntoHeaderSignableData.toHeaderSignableData msg := by
  simp only [verifyMsgHeader,bind_eq_ok,ensure_eq_ok,HeaderPasses]
  constructor
  · rintro ⟨_,recent,result,hv,_,rfl,same⟩
    exact ⟨⟨recent,hv⟩,same⟩
  · rintro ⟨⟨recent,hv⟩,same⟩
    exact ⟨(),recent,true,hv,(),rfl,same⟩

end P2p

end TruthSeeker
