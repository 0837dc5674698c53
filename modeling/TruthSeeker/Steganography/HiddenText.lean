import TruthSeeker.Framework.Base64
import TruthSeeker.Framework.Maps
import TruthSeeker.Steganography.Border

namespace TruthSeeker.Steganography

/-- What is used of frames in files, of the hiding in their lowest bits, of the capture that reads
the frames of a video, and of RSA. -/
structure Codec (α : Type) where
  libraries : Libraries
  imread : α → Frame
  hide : α → String → α
  /-- No text if the attempt raises an exception. -/
  reveal : α → Option String
  /-- The frame that is read after the capture has been set to a position. -/
  read : List α → Int → Option α
  encrypt : Bytes → Option Bytes
  decrypt : Bytes → Option Bytes

section Numbers

def isspace (c : Char) : Bool := decide (c.toNat∈[9,10,11,12,13,28,29,30,31,32,133,160])

/-- The number with further digits, between which single underscores may stand. -/
def moreDigits (n : Nat) : List Char → Option Nat
  | [] => some n
  | '_'::c::cs => if c.isDigit then moreDigits (10*n+(c.toNat-48)) cs else none
  | c::cs => if c.isDigit then moreDigits (10*n+(c.toNat-48)) cs else none

def digits : List Char → Option Nat
  | c::cs => if c.isDigit then moreDigits (c.toNat-48) cs else none
  | [] => none

/-- The number that a text of characters below 256 spells, as revealed texts are. More than 4300
digits are refused. -/
def int (s : List Char) : Option Int :=
  if 4300<(s.filter Char.isDigit).length then none else
    match ((s.dropWhile isspace).reverse.dropWhile isspace).reverse with
    | '-'::cs => (digits cs).map fun n => -(n : Int)
    | '+'::cs => (digits cs).map fun n => (n : Int)
    | cs => (digits cs).map fun n => (n : Int)

end Numbers

section Encoding

structure SplitState where
  splitList : List (List Char)
  outStr : List Char
  cCout : Nat

def splitStep (perC : Nat) (state : SplitState) (s : Char) : SplitState :=
  let outStr := state.outStr++[s]
  let cCout := state.cCout+1
  if cCout=perC then ⟨state.splitList++[outStr],[],0⟩ else ⟨state.splitList,outStr,cCout⟩

def splitString (sStr : List Char) (count : Nat) : List (List Char) :=
  let perC := (sStr.length+count-1)/count
  let last := sStr.foldl (splitStep perC) ⟨[],[],0⟩
  if last.cCout≠0 then last.splitList++[last.outStr] else last.splitList

variable {α : Type} (codec : Codec α)

def encryptRsa (message : String) : Option String :=
  (codec.encrypt (utf8 message)).map fun ciphertext => String.ofList (Base64.encode ciphertext)

def decryptRsa (encodedMessage : String) : Option Bytes :=
  (Base64.decode encodedMessage.toList).bind codec.decrypt

/-- Hides the parts in the frames of the numbers. -/
def hideParts (frames : List α) (entries : List (Nat × List Char)) : List α :=
  entries.foldl (fun frames entry =>
    frames.modify entry.1 fun frame => codec.hide frame (String.ofList entry.2)) frames

def metadataContent (frameNumbers : List Nat) : List Char :=
  [','].intercalate (frameNumbers.map fun n => (toString n).toList)

/-- The frames with the parts of the text, and the metadata frame after them. It fails if there
is no frame. -/
def encodeFrames (frames : List α) (encryptedText : String) : Option (List α × List Nat) :=
  let splitTextList := splitString encryptedText.toList 10
  let frameNumbers := List.range (min splitTextList.length frames.length)
  let hidden := hideParts codec frames (frameNumbers.zip splitTextList)
  hidden.head?.map fun first =>
    (hidden++[codec.hide first (String.ofList (metadataContent frameNumbers))],frameNumbers)

end Encoding

section Decoding
variable {α : Type} (codec : Codec α)

/-- The frame numbers of a text that looks like the content of a metadata frame. -/
def frameNums (metadataContent : String) : Option (List Int) :=
  if ',' ∈metadataContent.toList then (metadataContent.toList.splitOn ',').mapM int else none

/-- The frame numbers of the first of the last five frames that looks like a metadata frame. -/
def metadataFrameNumbers (frames : List α) : List Int :=
  (((List.range frames.length).drop (frames.length-5)).findSome? fun frameIndex : Nat =>
    ((codec.read frames frameIndex).bind codec.reveal).bind frameNums).getD []

/-- What a frame of the video reveals, unless it is empty. -/
def clearMessage (frames : List α) (frameNumber : Int) : Option String :=
  if frames.length≤frameNumber then none
  else ((codec.read frames frameNumber).bind codec.reveal).filter fun message => message≠""

def decodeFrame (frames : List α) (decoded : Std.ExtTreeMap Int String) (frameNumber : Int) :
    Std.ExtTreeMap Int String :=
  match clearMessage codec frames frameNumber with
  | some message => decoded.insert frameNumber message
  | none => decoded

/-- What the frames of the numbers reveal, in the order of the frames. -/
def revealedText (frames : List α) (framesToCheck : List Int) : String :=
  let decoded := framesToCheck.foldl (decodeFrame codec frames) ∅
  String.ofList (decoded.toList.flatMap fun entry => entry.2.toList)

/-- The text that a revealed text is an encryption of. -/
def plaintext (res : String) : Option String :=
  (decryptRsa codec res).bind fun bytes => String.fromUTF8? ⟨bytes.toArray⟩

def decodeVideo (frames : List α) : Option String :=
  let borderData := extractBorderData codec.libraries (frames.map codec.imread)
  let metadataFrameNumbers := metadataFrameNumbers codec frames
  let framesToCheck :=
    if metadataFrameNumbers=[] then (List.range 15).map Int.ofNat else metadataFrameNumbers
  let res := revealedText codec frames framesToCheck
  if res="" then (if borderData="" then none else some borderData)
  else
    match plaintext codec res with
    | some decryptedMessage => some decryptedMessage
    | none => if borderData="" then some res else some borderData

end Decoding

end TruthSeeker.Steganography
