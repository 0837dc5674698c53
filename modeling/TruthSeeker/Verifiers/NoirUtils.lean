import TruthSeeker.Framework.Sections
import TruthSeeker.Model.Contract

namespace TruthSeeker.NoirUtils

open Outcome Handler

/-- The value of a digit in the radix. -/
def toDigit (radix : Nat) (c : Char) : Option Nat :=
  let digit :=
    if '0'≤ c ∧ c≤ '9' then some (c.toNat- '0'.toNat)
    else if 'a'≤ c ∧ c≤ 'z' then some (c.toNat- 'a'.toNat+10)
    else if 'A'≤ c ∧ c≤ 'Z' then some (c.toNat- 'A'.toNat+10)
    else none
  digit.filter fun d => d< radix

/-- The digits from left to right. The number must fit at every step. -/
def parseDigits (bits radix : Nat) : Nat → List Char → Except String Nat
  | n,[] => .ok n
  | n,c::cs =>
      match toDigit radix c with
      | none => .error "invalid digit found in string"
      | some d =>
          if 2^bits≤n*radix+d then .error "number too large to fit in target type"
          else parseDigits bits radix (n*radix+d) cs

/-- An unsigned number of the given width. -/
def fromStrRadix (bits radix : Nat) (src : String) : Except String Nat :=
  match src.toList with
  | [] => .error "cannot parse integer from empty string"
  | ['+'] => .error "invalid digit found in string"
  | '+'::cs => parseDigits bits radix 0 cs
  | cs => parseDigits bits radix 0 cs

def get (bytes : Bytes) (start stop : Nat) : Option Bytes :=
  if start≤ stop ∧ stop≤bytes.length then some ((bytes.drop start).take (stop-start)) else none

/-- The number of public inputs, which is in the verification key. -/
def numPublicInputs (vkey : Bytes) : Option Nat :=
  (get vkey 16 24).map fun x => Bytes.toNatLE x.reverse

/-- The public inputs at the front of a proof. -/
def extractPublicInputs (proofWithPublicInputs vkey : Bytes) : Outcome (Option Bytes) :=
  match numPublicInputs vkey with
  | none => .ok none
  | some numPublicInputs => do
      panicUnless (numPublicInputs*32<2^64) "attempt to multiply with overflow"
      panicUnless (4+numPublicInputs*32<2^64) "attempt to add with overflow"
      return get proofWithPublicInputs 4 (4+numPublicInputs*32)

def PUBLIC_INPUT_SIZE : Nat := 32

/-- The bytes in pieces of the size, except for the last one. -/
def chunks (size : Nat) : Nat → Bytes → List Bytes
  | _,[] => []
  | 0,_ => []
  | fuel+1,bytes => bytes.take size::chunks size fuel (bytes.drop size)

/-- Each field in hexadecimal digits, padded to 64 characters. -/
def deflattenFields (flattenedFields : Bytes) : List String :=
  (chunks PUBLIC_INPUT_SIZE flattenedFields.length flattenedFields).map fun chunk =>
    let hexString := (Bytes.hex chunk).toList
    String.ofList (List.replicate (64-hexString.length) '0'++hexString)

/-- The first field is removed from the vector. -/
def remove : Handler (List String) String
  | [] => (Outcome.panic "removal index (is 0) should be < len (is 0)",[])
  | field::fields => (.ok field,fields)

def next {α : Type} (read : String → Except String α) : Handler (List String) α := do
  let field ← remove
  lift (fromExcept (read field) .err)

/-- Vectors have no more bytes than the largest signed number of the machine. -/
def withCapacity (capacity : Nat) : Handler (List String) Unit :=
  lift (panicUnless (capacity<2^63) "capacity overflow")

def readChar (field : String) : Except String Char := do
  let code ← fromStrRadix 32 16 field
  if h : code.isValidChar then return Char.ofNatAux code h
  else .error s!"Invalid char code: {code}"

def parseSizedString (length : Nat) : Handler (List String) (List Char) :=
  collect (fun _ => next readChar) 0 length

/-- Whether a character starts at the index of the encoded string, or the string ends. -/
def isCharBoundary : Nat → List Char → Bool
  | 0,_ => true
  | _+1,[] => false
  | n+1,c::cs => c.utf8Size≤ n+1 && isCharBoundary (n+1-c.utf8Size) cs

def takeBytes : Nat → List Char → List Char
  | 0,_ => []
  | _,[] => []
  | n,c::cs => c::takeBytes (n-c.utf8Size) cs

/-- A string that is cut off at a number of bytes. -/
def truncate (newLen : Nat) (chars : List Char) : Outcome (List Char) :=
  if newLen≤(chars.map Char.utf8Size).sum then do
    panicUnless (isCharBoundary newLen chars=true)
      "assertion failed: self.is_char_boundary(new_len)"
    return takeBytes newLen chars
  else .ok chars

/-- A string of at most 256 bytes. -/
def parseStringWithLen : Handler (List String) String := do
  let length ← next (fromStrRadix 64 16)
  if length>256 then fail s!"Invalid contract name length {length}. Max is 256."
  else
    let field ← parseSizedString 256
    let field ← lift (truncate length field)
    return String.ofList field

def readByte (field : String) : Except String UInt8 :=
  (fromStrRadix 8 16 field).map UInt8.ofNat

def parseArray : Handler (List String) Bytes := do
  let length ← next (fromStrRadix 64 16)
  withCapacity length
  collect (fun _ => next readByte) 0 length

/-- One round of the loop in `parse_blobs`. -/
def parseBlob : Handler (List String) (BlobIndex × Blob) := do
  let index ← next (fromStrRadix 64 16)
  let contractName ← parseStringWithLen
  let blobCapacity ← next (fromStrRadix 64 16)
  let blobLen ← next (fromStrRadix 64 16)
  withCapacity blobCapacity
  let blob ← collect (fun i => Handler.context
    s!"Failed to parse blob data at {i}/{blobCapacity}" (next readByte)) 0 blobCapacity
  return (UInt64.ofNat index,⟨contractName,blob.take blobLen⟩)

def parseBlobs : Handler (List String) IndexedBlobs := do
  let blobNumber ← next (fromStrRadix 64 16)
  collect (fun _ => parseBlob) 0 blobNumber

/-- What remains is parsed as an array, if there is anything. Errors do not matter. -/
def parseProgramOutputs : Handler (List String) Bytes
  | [] => (.ok [],[])
  | field::fields =>
      match parseArray (field::fields) with
      | (.error (.err _),rest) => (.ok [],rest)
      | result => result

def parseFields : Handler (List String) HyleOutput := do
  let version ← next (fromStrRadix 32 16)
  let initialState ← parseArray
  let nextState ← parseArray
  let identity ← parseStringWithLen
  let txHash ← parseSizedString 64
  let index ← next (fromStrRadix 32 16)
  let blobs ← parseBlobs
  let txBlobCount ← next (fromStrRadix 64 16)
  let success ← next (fromStrRadix 32 16)
  let programOutputs ← parseProgramOutputs
  return {
    version := UInt32.ofNat version
    initialState := initialState
    nextState := nextState
    identity := identity
    txHash := String.ofList txHash
    txCtx := none
    index := UInt64.ofNat index
    blobs := blobs
    txBlobCount := UInt64.ofNat txBlobCount
    success := success=1
    stateReads := []
    onchainEffects := []
    programOutputs := programOutputs }

def parseNoirOutput (output vkey : Bytes) : Outcome HyleOutput := do
  match ← extractPublicInputs output vkey with
  | none => err "Failed to extract public inputs"
  | some publicInputs => (parseFields (deflattenFields publicInputs)).1

end TruthSeeker.NoirUtils
