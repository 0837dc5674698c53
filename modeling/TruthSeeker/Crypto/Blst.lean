import TruthSeeker.Model.Contract

namespace TruthSeeker

open Outcome

abbrev Signature := Bytes

structure Signed (T V : Type) where
  msg : T
  signature : V
  deriving DecidableEq

structure ValidatorSignature where
  signature : Signature
  validator : ValidatorPublicKey
  deriving DecidableEq

abbrev SignedByValidator (T : Type) := Signed T ValidatorSignature

structure AggregateSignature where
  signature : Signature
  validators : List ValidatorPublicKey
  deriving DecidableEq,Inhabited

/-- `borsh::to_vec`, which fails on lengths beyond 32 bits only. -/
def toVec {T : Type} [Borsh T] (value : T) : Outcome Bytes :=
  fromOption (Borsh.ser value) (.err "invalid input parameter")

theorem toVec_eq_ok {T : Type} [Borsh T] {value : T} {bs : Bytes} :
    toVec value=.ok bs ↔ Borsh.ser value=some bs := by
  simp [toVec]

/-- A marker adds nothing to the bytes of the message before it. -/
theorem toVec_marked {T Marker : Type} [Borsh T] [Borsh Marker] (value : T) (marker : Marker)
    (hm : Borsh.ser marker=some []) : toVec (value,marker)=toVec value := by
  have hs : Borsh.ser (value,marker)=Borsh.ser value := by
    change (Borsh.ser value).bind (fun xs => (Borsh.ser marker).map (xs++·))=_
    simp [hm]
  rw [toVec,toVec,hs]

/-- The functions of the `blst` crate that signing and verification call. -/
structure Blst (PublicKey BlstSignature : Type) where
  uncompressKey : Bytes → Except String PublicKey
  compressKey : PublicKey → Bytes
  uncompressSignature : Bytes → Except String BlstSignature
  compressSignature : BlstSignature → Bytes
  aggregateKeys : List PublicKey → Except String PublicKey
  aggregateSignatures : List BlstSignature → Except String BlstSignature
  verify : BlstSignature → Bytes → PublicKey → Bool

/-- The key of one validator, with the secret key as its signing function. -/
structure BlstCrypto (PublicKey BlstSignature : Type) extends Blst PublicKey BlstSignature where
  signBytes : Bytes → BlstSignature
  validatorPubkey : ValidatorPublicKey

variable {PublicKey BlstSignature T : Type}

namespace Blst

variable (blst : Blst PublicKey BlstSignature)

def parseKey (v : ValidatorPublicKey) : Outcome PublicKey :=
  fromExcept (blst.uncompressKey v) fun e => .err s!"Could not parse PublicKey: {e}"

def parseSignature (s : Signature) : Outcome BlstSignature :=
  fromExcept (blst.uncompressSignature s) fun e => .err s!"Could not parse Signature: {e}"

def verifySigned [Borsh T] (msg : SignedByValidator T) : Outcome Bool := do
  let pk ← blst.parseKey msg.signature.validator
  let sig ← blst.parseSignature msg.signature.signature
  let encoded ← toVec msg.msg
  return blst.verify sig encoded pk

def aggregateValidatorsPk (validators : List ValidatorPublicKey) : Outcome PublicKey := do
  let pks ← validators.mapM blst.parseKey
  fromExcept (blst.aggregateKeys pks) fun e => .err s!"could not aggregate public keys: {e}"

def verifyAggregate [Borsh T] (msg : Signed T AggregateSignature) : Outcome Bool := do
  let pk ← blst.aggregateValidatorsPk msg.signature.validators
  let sig ← blst.parseSignature msg.signature.signature
  let encoded ← toVec msg.msg
  return blst.verify sig encoded pk

/-- The aggregate signature verifies on these bytes under the keys of the validators. -/
def Verifies (aggregate : AggregateSignature) (encoded : Bytes) : Prop :=
  ∃ pk sig,blst.aggregateValidatorsPk aggregate.validators=.ok pk ∧
    blst.parseSignature aggregate.signature=.ok sig ∧ blst.verify sig encoded pk=true

theorem verifyAggregate_eq_ok_true [Borsh T] {msg : Signed T AggregateSignature} :
    blst.verifyAggregate msg=.ok true ↔
      ∃ encoded,toVec msg.msg=.ok encoded ∧ blst.Verifies msg.signature encoded := by
  constructor
  · intro h
    simp only [verifyAggregate,bind_eq_ok,pure_eq_ok] at h
    obtain ⟨pk,hk,sig,hs,encoded,he,hv⟩ := h
    exact ⟨encoded,he,pk,sig,hk,hs,hv⟩
  · intro h
    obtain ⟨encoded,he,pk,sig,hk,hs,hv⟩ := h
    simp only [verifyAggregate,bind_eq_ok,pure_eq_ok]
    exact ⟨pk,hk,sig,hs,encoded,he,hv⟩

end Blst

namespace BlstCrypto

variable (crypto : BlstCrypto PublicKey BlstSignature)

def sign [Borsh T] (msg : T) : Outcome (SignedByValidator T) := do
  let encoded ← toVec msg
  return ⟨msg,⟨crypto.compressSignature (crypto.signBytes encoded),crypto.validatorPubkey⟩⟩

/-- The signatures, keys and validators of signed messages. -/
def extractAggregates :
    List (SignedByValidator T) →
      Outcome (List BlstSignature × List PublicKey × List ValidatorPublicKey)
  | [] => .ok ([],[],[])
  | s::ss => do
      let sig ← fromExcept (crypto.uncompressSignature s.signature.signature)
        fun _ => .err "Could not parse Signature"
      let pk ← fromExcept (crypto.uncompressKey s.signature.validator)
        fun _ => .err "Could not parse Public Key"
      let (sigs,pks,val) ← extractAggregates ss
      return (sig::sigs,pk::pks,s.signature.validator::val)

def aggregate [Borsh T] (msg : T) :
    List (SignedByValidator T) → Outcome (Signed T AggregateSignature)
  | [] => err "No signatures to aggregate"
  | [s] => .ok ⟨msg,⟨s.signature.signature,[s.signature.validator]⟩⟩
  | aggregates => do
      let (sigs,pks,val) ← crypto.extractAggregates aggregates
      let aggregatedPk ← fromExcept (crypto.aggregateKeys pks)
        fun e => .err s!"could not aggregate public keys: {e}"
      let aggregatedSig ← fromExcept (crypto.aggregateSignatures sigs)
        fun e => .err s!"could not aggregate signatures: {e}"
      let signature := crypto.compressSignature aggregatedSig
      let valid ← match crypto.verifyAggregate
          ⟨msg,⟨signature,[crypto.compressKey aggregatedPk]⟩⟩ with
        | .ok valid => .ok valid
        | .error (.err e) => err s!"Failed for verify new aggregated signature! Reason: {e}"
        | .error fault => .error fault
      ensure (valid=true)
        "Failed to aggregate signatures into valid one. Messages might be different."
      return ⟨msg,⟨signature,val⟩⟩

def signAggregate [Borsh T] (msg : T) (aggregates : List (SignedByValidator T)) :
    Outcome (Signed T AggregateSignature) := do
  let selfSigned ← crypto.sign msg
  crypto.aggregate msg (aggregates++[selfSigned])

end BlstCrypto

end TruthSeeker
