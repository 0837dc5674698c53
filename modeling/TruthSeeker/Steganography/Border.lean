import Mathlib.Data.List.ProdSigma
import TruthSeeker.Steganography.Image
import TruthSeeker.Steganography.Text

namespace TruthSeeker.Steganography

section Colors

/-- The conversion of colors, in exact numbers. -/
def hsvToRgb (h s v : Rat) : Rat × Rat × Rat :=
  if s=0 then (v,v,v) else
    let i := (h*6).floor
    let f := h*6-i
    let p := v*(1-s)
    let q := v*(1-s*f)
    let t := v*(1-s*(1-f))
    if i%6=0 then (v,t,p) else if i%6=1 then (q,v,p) else if i%6=2 then (p,v,t)
    else if i%6=3 then (p,q,v) else if i%6=4 then (t,p,v) else (v,p,q)

/-- The color of a hue, which is taken modulo 1. -/
def bitColor (hue s v : Rat) : Pixel :=
  let channel := fun x : Rat => UInt8.ofNat (x*255).floor.toNat
  let (r,g,b) := hsvToRgb (hue-hue.floor) s v
  ⟨channel b,channel g,channel r⟩

def hueShift (frameIndex totalFrames : Nat) : Rat := (frameIndex/totalFrames : Rat)*(3/10)

/-- The color of the bit 0, from dark blue to purple. -/
def zeroColor (frameIndex totalFrames : Nat) : Pixel :=
  bitColor (6/10+hueShift frameIndex totalFrames) (7/10) (4/10)

/-- The color of the bit 1, from orange to red. -/
def oneColor (frameIndex totalFrames : Nat) : Pixel :=
  bitColor (5/100+hueShift frameIndex totalFrames) (9/10) (7/10)

end Colors

section Encoding
variable (lib : Libraries)

/-- The pixels of the top left corner, row by row. -/
def corner (size : Nat) : List (Nat × Nat) := List.range size ×ˢ List.range size

/-- Draws the next bit at a pixel, as long as there is one. -/
def drawBit (frameData : List Bool) (zero one : Pixel) (state : Frame × Nat) (pos : Nat × Nat) :
    Option (Frame × Nat) :=
  match frameData[state.2]? with
  | some bit =>
      (state.1.set pos.1 pos.2 (if bit then one else zero)).map fun frame => (frame,state.2+1)
  | none => some state

/-- Python's range of numbers. -/
def range (start stop step : Int) : List Int :=
  let count := if 0 < step then (stop-start+step-1)/step else (start-stop-step-1)/(-step)
  (List.range count.toNat).map fun i => start+step*i

def white : Pixel := ⟨255,255,255⟩

/-- The decorations of the other three corners. -/
def drawCorners (borderWidth : Int) (frame : Frame) : Frame :=
  let height : Int := frame.height
  let width : Int := frame.width
  let cornerSize := borderWidth*2
  let green := lib.rectangle frame (width-cornerSize,0) (width,cornerSize) ⟨30,180,30⟩ (-1)
  let striped := (range 0 cornerSize 4).foldl (fun frame i =>
    lib.line frame (width-cornerSize,i) (width-cornerSize+i,0) white 1) green
  let blue := lib.rectangle striped (0,height-cornerSize) (cornerSize,height) ⟨180,30,30⟩ (-1)
  let ring := lib.circle blue (cornerSize/2,height-cornerSize/2) (cornerSize/3) white 2
  let cyan := lib.rectangle ring (width-cornerSize,height-cornerSize) (width,height)
    ⟨180,180,30⟩ (-1)
  lib.rectangle cyan (width-cornerSize+5,height-cornerSize+5) (width-5,height-5) white 2

/-- Every other four positions get a filled rectangle. -/
def drawPattern (frameIndex : Nat) (shape : Int → Point × Point) (color : Int → Int × Int × Int)
    (positions : List Int) (frame : Frame) : Frame :=
  let shade := fun n : Int => UInt8.ofNat n.toNat
  positions.foldl (fun frame (z : Int) =>
    let patternValue := (z+frameIndex)%8
    if patternValue<4 then
      let (b,g,r) := color patternValue
      lib.rectangle frame (shape z).1 (shape z).2 ⟨shade b,shade g,shade r⟩ (-1)
    else frame) frame

def borderOverlay (borderWidth : Int) (frameIndex : Nat) (frame : Frame) : Frame :=
  let height : Int := frame.height
  let width : Int := frame.width
  let cornerSize := borderWidth*2
  let top := drawPattern lib frameIndex (fun x => ((x,0),(x+3,borderWidth-1)))
    (fun v => (30+v*20,30+v*10,150-v*10)) (range cornerSize (width-cornerSize) 4) frame
  let right := drawPattern lib frameIndex (fun y => ((width-borderWidth,y),(width-1,y+3)))
    (fun v => (30+v*10,150-v*10,30+v*20)) (range cornerSize (height-cornerSize) 4) top
  let bottom := drawPattern lib frameIndex (fun x => ((x-3,height-borderWidth),(x,height-1)))
    (fun v => (150-v*10,30+v*10,30+v*20)) (range (width-cornerSize) cornerSize (-4)) right
  drawPattern lib frameIndex (fun y => ((0,y-3),(borderWidth-1,y)))
    (fun v => (30+v*20,150-v*10,30+v*10)) (range (height-cornerSize) cornerSize (-4)) bottom

/-- The blends of the four borders, without the corners. -/
def blendBorders (borderWidth : Int) (overlay frame : Frame) : Frame :=
  let height : Int := frame.height
  let width : Int := frame.width
  let cornerSize := borderWidth*2
  let top := frame.blend lib overlay (0,borderWidth) (cornerSize,width-cornerSize)
  let right := top.blend lib overlay (cornerSize,height-cornerSize) (width-borderWidth,width)
  let bottom := right.blend lib overlay (height-borderWidth,height) (cornerSize,width-cornerSize)
  bottom.blend lib overlay (cornerSize,height-cornerSize) (0,borderWidth)

/-- The portion of the data that a frame encodes, which wraps around. -/
def frameData (frame : Frame) (binaryData : List Bool) (frameIndex borderWidth : Nat) : List Bool :=
  let bitsPerFrame :=
    min binaryData.length ((2*(frame.width+frame.height)-4*borderWidth)/2)
  let startIndex := (frameIndex*bitsPerFrame/3)%binaryData.length
  let portion := (binaryData.drop startIndex).take bitsPerFrame
  portion++binaryData.take (bitsPerFrame-portion.length)

/-- The frame with the data in its top left corner and the decorations elsewhere. It fails if
there is no data (a division by zero) or if there are bits to draw outside of the frame. -/
def createDataBorder (frame : Frame) (data : String) (frameIndex totalFrames borderWidth : Nat) :
    Option Frame :=
  if textToBinary data=[] then none else
  let bits := frameData frame (textToBinary data) frameIndex borderWidth
  ((corner (borderWidth*2)).foldlM (drawBit bits (zeroColor frameIndex totalFrames)
      (oneColor frameIndex totalFrames)) (frame,0)).map fun drawn =>
    let decorated := drawCorners lib borderWidth drawn.1
    blendBorders lib borderWidth (borderOverlay lib borderWidth frameIndex decorated) decorated

def addDataBorderToFrames (frames : List Frame) (data : String) : Option (List Frame) :=
  frames.zipIdx.mapM fun (frame,i) =>
    createDataBorder lib frame ("STEGO:"++data) i frames.length 20

end Encoding

section Decoding
variable (lib : Libraries)

/-- Whether red exceeds blue by more than 20. -/
def isOneBit (pixel : Pixel) : Bool :=
  let bound := if lib.wraps then (pixel.b+20).toNat else pixel.b.toNat+20
  decide (bound<pixel.r.toNat)

def cornerBits (size : Nat) (frame : Frame) : List Bool :=
  (corner size).map fun pos => isOneBit lib (frame.pixel pos.1 pos.2)

def decodeBorderData (frame : Frame) (borderWidth : Nat) : Option String :=
  if frame.width<borderWidth*2 ∨ frame.height<borderWidth*2 then none
  else some (binaryToText (cornerBits lib (borderWidth*2) frame))

/-- The place of the first occurrence. -/
def find (text pattern : List Char) : Option Nat :=
  text.tails.findIdx? fun tail => pattern.isPrefixOf tail

def isprintable (c : Char) : Bool := decide (Printable c.toNat)

/-- The texts of the frames that are not empty. -/
def frameTexts (rawFrames : List Frame) : List String :=
  rawFrames.filterMap fun frame => (decodeBorderData lib frame 20).filter fun text => text≠""

/-- The chunk of a text from the marker on. -/
def stegoFragment (text : String) : Option String :=
  (find text.toList "STEGO:".toList).map fun start =>
    let fragment := (text.toList.drop start).take 200
    String.ofList (fragment.filter isprintable)

/-- What the frames of a video say in their corners. -/
def extractBorderData (frames : List Frame) : String :=
  let frameCount := frames.length
  let samples := min 10 frameCount
  let sampleIndices := (List.range samples).map fun i => i*frameCount/samples
  let rawFrames := sampleIndices.filterMap fun frameIdx =>
    frames[frameIdx]?.filter lib.detectBorderInFrame
  if rawFrames.isEmpty then "No frames with border encoding found" else
    let texts := frameTexts lib rawFrames
    match texts.findSome? stegoFragment with
    | some fragment => fragment
    | none =>
        if texts=[] then "No decodable border data found"
        else String.ofList ((" ".intercalate texts).toList.filter isprintable)

end Decoding

section Draw
variable {frameBits : List Bool} {zero one : Pixel}

theorem mem_corner {size : Nat} {pos : Nat × Nat} (h : pos∈corner size) :
    pos.1 < size ∧ pos.2 < size := by
  obtain ⟨y,x⟩ := pos
  have mem : y∈List.range size ∧ x∈List.range size := List.mem_product.mp h
  simpa using mem

theorem nodup_corner (size : Nat) : (corner size).Nodup :=
  List.nodup_range.product List.nodup_range

theorem length_corner (size : Nat) : (corner size).length=size*size := by
  rw [corner,List.length_product,List.length_range]

/-- The bits are drawn at the first positions, and the other pixels stay. -/
theorem foldlM_drawBit {positions : List (Nat × Nat)} (hn : positions.Nodup) {frame : Frame}
    {k : Nat} (hin : ∀ pos ∈ positions,pos.1<frame.height ∧ pos.2<frame.width)
    (hk : k≤frameBits.length) (hl : frameBits.length-k≤positions.length) :
    ∃ next,positions.foldlM (drawBit frameBits zero one) (frame,k)=
        some (next,frameBits.length) ∧
      next.height=frame.height ∧ next.width=frame.width ∧
      (∀ pos : Nat × Nat,pos∉positions → next.pixel pos.1 pos.2=frame.pixel pos.1 pos.2) ∧
      positions.map (fun pos => next.pixel pos.1 pos.2)=
        (frameBits.drop k).map (fun bit => if bit then one else zero)++
          (positions.drop (frameBits.length-k)).map fun pos => frame.pixel pos.1 pos.2 := by
  induction positions generalizing frame k with
  | nil =>
    have all : k=frameBits.length := by
      simp only [List.length_nil] at hl
      omega
    subst all
    exact ⟨frame,rfl,rfl,rfl,fun _ _ => rfl,by simp⟩
  | cons pos positions ih =>
    obtain ⟨fresh,nodup⟩ := List.nodup_cons.mp hn
    have inner := fun other ho => hin other (List.mem_cons_of_mem pos ho)
    rw [List.foldlM_cons]
    by_cases more : k<frameBits.length
    · let color := if frameBits[k] then one else zero
      let drawn : Frame := { frame with
        pixel := fun i j => if i=pos.1 ∧ j=pos.2 then color else frame.pixel i j }
      have step : drawBit frameBits zero one (frame,k) pos=some (drawn,k+1) := by
        have inside := hin pos List.mem_cons_self
        simp [drawBit,Frame.set,List.getElem?_eq_getElem more,inside,drawn,color]
      have less : frameBits.length-(k+1)≤positions.length := by
        simp only [List.length_cons] at hl
        omega
      obtain ⟨next,run,height,width,others,pixels⟩ :=
        @ih nodup drawn (k+1) inner more less
      have kept : ∀ other : Nat × Nat,other≠pos →
          drawn.pixel other.1 other.2=frame.pixel other.1 other.2 := by
        intro other apart
        exact if_neg fun same => apart (Prod.ext same.1 same.2)
      refine ⟨next,by rw [step]; exact run,height,width,?_,?_⟩
      · intro other away
        rw [List.mem_cons,not_or] at away
        rw [others other away.2,kept other away.1]
      · have here : next.pixel pos.1 pos.2=color := by
          rw [others pos fresh]
          exact if_pos ⟨rfl,rfl⟩
        have rest : (positions.drop (frameBits.length-(k+1))).map
            (fun pos => drawn.pixel pos.1 pos.2)=
              (positions.drop (frameBits.length-(k+1))).map
                (fun pos => frame.pixel pos.1 pos.2) := by
          apply List.map_congr_left
          intro other ho
          apply kept
          rintro rfl
          exact fresh (List.mem_of_mem_drop ho)
        have count : frameBits.length-k=frameBits.length-(k+1)+1 := by omega
        rw [List.map_cons,pixels,here,rest,List.drop_eq_getElem_cons more,count,
          List.drop_succ_cons]
        rfl
    · have all : k=frameBits.length := by omega
      subst all
      have step : drawBit frameBits zero one (frame,frameBits.length) pos=
          some (frame,frameBits.length) := by simp [drawBit]
      obtain ⟨next,run,height,width,others,pixels⟩ :=
        @ih nodup frame frameBits.length inner le_rfl (by simp)
      refine ⟨next,by rw [step]; exact run,height,width,?_,?_⟩
      · intro other away
        rw [List.mem_cons,not_or] at away
        exact others other away.2
      · rw [List.map_cons,pixels,others pos fresh]
        simp

end Draw

section Decorations
variable {lib : Libraries} {frame : Frame}

theorem keepsCorner_drawCorners (hl : lib.Local) (hh : 80≤frame.height) (hw : 80≤frame.width) :
    KeepsCorner 40 (drawCorners lib 20 frame) frame := by
  have low : ∀ i ∈ range 0 (20*2) 4,0 ≤ i := by decide
  unfold drawCorners
  refine (KeepsCorner.ofBox (hl.rectangle _ _ _ _ _) ?_).trans ?_
  · simp only [reach]
    omega
  refine (KeepsCorner.ofBox (hl.rectangle _ _ _ _ _) ?_).trans ?_
  · simp only [reach]
    omega
  refine (KeepsCorner.ofBox (hl.circle _ _ _ _ _) ?_).trans ?_
  · simp only [reach]
    omega
  refine (KeepsCorner.ofBox (hl.rectangle _ _ _ _ _) ?_).trans ?_
  · simp only [reach]
    omega
  refine (KeepsCorner.foldl ?_).trans (KeepsCorner.ofBox (hl.rectangle _ _ _ _ _) ?_)
  · intro frame i hi
    apply KeepsCorner.ofBox (hl.line _ _ _ _ _)
    have positive := low i hi
    simp only [reach]
    omega
  · simp only [reach]
    omega

theorem keepsCorner_blendBorders {overlay : Frame} (hh : 80≤frame.height) :
    KeepsCorner 40 (blendBorders lib 20 overlay frame) frame := by
  unfold blendBorders
  refine (KeepsCorner.blend ?_).trans ((KeepsCorner.blend ?_).trans
    ((KeepsCorner.blend ?_).trans (KeepsCorner.blend ?_)))
  all_goals
    dsimp only
    omega

end Decorations

end TruthSeeker.Steganography
