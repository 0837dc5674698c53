import Mathlib.Data.List.Infix
import Mathlib.Data.List.Rotate
import TruthSeeker.Steganography.Border

namespace TruthSeeker.Steganography

variable {lib : Libraries} {frame : Frame} {data : String}

section Bits

theorem length_frameData (bits : List Bool) (i : Nat) :
    (frameData frame bits i 20).length≤bits.length := by
  unfold frameData
  simp only [List.length_append,List.length_take,List.length_drop]
  omega

/-- A frame with room for all bits gets a rotation of them. -/
theorem frameData_eq_rotate {bits : List Bool} {i borderWidth : Nat}
    (h : bits.length≤(2*(frame.width+frame.height)-4*borderWidth)/2) :
    frameData frame bits i borderWidth=bits.rotate (i*bits.length/3) := by
  have all : min bits.length ((2*(frame.width+frame.height)-4*borderWidth)/2)=bits.length :=
    Nat.min_eq_left h
  unfold frameData
  rw [all]
  dsimp only
  rw [List.rotate_eq_drop_append_take_mod]
  have inside : i*bits.length/3%bits.length≤bits.length := by
    obtain none|some := Nat.eq_zero_or_pos bits.length
    · simp [none]
    · exact (Nat.mod_lt _ some).le
  generalize i*bits.length/3%bits.length=start at inside ⊢
  have whole : (bits.drop start).take bits.length=bits.drop start :=
    List.take_of_length_le (by simp)
  have rest : bits.length-(bits.drop start).length=start := by
    rw [List.length_drop]
    omega
  rw [whole,rest]

theorem isOneBit_color (total : Nat) (bit : Bool) :
    isOneBit lib (if bit then oneColor 0 total else zeroColor 0 total)=bit := by
  have still : hueShift 0 total=0 := by simp [hueShift]
  unfold oneColor zeroColor
  rw [still]
  have one : bitColor (5/100+0) (9/10) (7/10)=⟨17,66,178⟩ := by decide +kernel
  have zero : bitColor (6/10+0) (7/10) (4/10)=⟨102,59,30⟩ := by decide +kernel
  rw [one,zero]
  cases bit <;> cases hw : lib.wraps <;> simp [isOneBit,hw]

end Bits

section Frames

/-- A frame of the size of the corners or larger can be bordered with some data. Its corner has
the bits of the frame before what was there, if the decoder knows the colors. -/
theorem exists_createDataBorder (hl : lib.Local) (hh : 80≤frame.height) (hw : 80≤frame.width)
    (hd : (textToBinary data).length≤1600) (hn : textToBinary data≠[]) (i total : Nat) :
    ∃ next,createDataBorder lib frame data i total 20=some next ∧
      ((∀ bit : Bool,isOneBit lib (if bit then oneColor i total else zeroColor i total)=bit) →
        40≤next.height ∧ 40≤next.width ∧
          cornerBits lib 40 next=frameData frame (textToBinary data) i 20++
            (cornerBits lib 40 frame).drop (frameData frame (textToBinary data) i 20).length) := by
  let bits := frameData frame (textToBinary data) i 20
  have short : bits.length≤1600 := (length_frameData _ i).trans hd
  have inside : ∀ pos ∈ corner (20*2),pos.1<frame.height ∧ pos.2<frame.width := by
    intro pos hp
    have low := mem_corner hp
    omega
  have room : bits.length-0≤(corner (20*2)).length := by
    rw [length_corner]
    omega
  obtain ⟨drawn,run,height,width,_,pixels⟩ :=
    @foldlM_drawBit bits (zeroColor i total) (oneColor i total) _ (nodup_corner _) frame 0 inside
      (Nat.zero_le _) room
  let decorated := drawCorners lib 20 drawn
  let bordered := blendBorders lib 20 (borderOverlay lib 20 i decorated) decorated
  have kept : KeepsCorner 40 bordered drawn := by
    have corners : KeepsCorner 40 decorated drawn :=
      keepsCorner_drawCorners hl (by omega) (by omega)
    have blended : KeepsCorner 40 bordered decorated := by
      apply keepsCorner_blendBorders
      rw [corners.height]
      omega
    exact blended.trans corners
  refine ⟨bordered,?_,?_⟩
  · unfold createDataBorder
    rw [if_neg hn]
    dsimp only
    rw [run]
    rfl
  · intro known
    refine ⟨by rw [kept.height]; omega,by rw [kept.width]; omega,?_⟩
    have same : cornerBits lib 40 bordered=cornerBits lib 40 drawn := by
      apply List.map_congr_left
      intro pos hp
      have low := mem_corner hp
      rw [kept.pixel pos.1 pos.2 low.1 low.2]
    have read : cornerBits lib 40 drawn=
        ((corner 40).map fun pos => drawn.pixel pos.1 pos.2).map (isOneBit lib) := by
      rw [List.map_map]
      rfl
    have bit : (isOneBit lib ∘ fun bit : Bool =>
        if bit then oneColor i total else zeroColor i total)=id :=
      funext known
    rw [same,read,pixels,List.drop_zero,Nat.sub_zero,List.map_append,List.map_map,bit,
      List.map_id,List.map_map,cornerBits,List.map_drop]
    rfl

theorem exists_mapM {α β : Type} {f : α → Option β} {items : List α}
    (h : ∀ a ∈ items,∃ b,f a=some b) : ∃ bs,items.mapM f=some bs := by
  induction items with
  | nil => exact ⟨[],rfl⟩
  | cons a items ih =>
    obtain ⟨b,hb⟩ := h a List.mem_cons_self
    obtain ⟨bs,hbs⟩ := ih fun a ha => h a (List.mem_cons_of_mem _ ha)
    refine ⟨b::bs,?_⟩
    rw [List.mapM_cons,hb,hbs]
    rfl

end Frames

section Text

theorem stegoFragment_eq {rest : List Char} {text : String}
    (ht : text.toList="STEGO:".toList++rest) (hp : ∀ c ∈ rest,Printable c.toNat)
    (hl : text.length≤200) : stegoFragment text=some text := by
  have start : find text.toList "STEGO:".toList=some 0 := by
    rw [ht]
    simp [find,List.findIdx?_cons]
  have whole : text.toList.take 200=text.toList :=
    List.take_of_length_le (by rwa [String.length_toList])
  have clean : text.toList.filter isprintable=text.toList := by
    rw [List.filter_eq_self,ht]
    intro c hc
    obtain marker|tail := List.mem_append.mp hc
    · have all : "STEGO:".toList.all isprintable=true := by decide
      exact List.all_eq_true.mp all c marker
    · exact decide_eq_true (hp c tail)
  unfold stegoFragment
  rw [start]
  simp [whole,clean]

/-- The first of the sampled frames decides if its text starts with the marker. -/
theorem extractBorderData_eq {first : Frame} {rest : List Frame} {text : String}
    (hd : lib.detectBorderInFrame first=true) (ht : decodeBorderData lib first 20=some text)
    (hs : stegoFragment text=some text) (hn : text≠"") :
    extractBorderData lib (first::rest)=text := by
  have samples : min 10 (first::rest).length=min 9 rest.length+1 := by
    rw [List.length_cons]
    omega
  have detected : Option.filter lib.detectBorderInFrame (first::rest)[0]?=some first := by
    simp [hd]
  have texts : ∀ others,frameTexts lib (first::others)=text::frameTexts lib others := by
    intro others
    have kept : (decodeBorderData lib first 20).filter (fun text => text≠"")=some text := by
      simp [ht,hn]
    rw [frameTexts,List.filterMap_cons,kept]
    rfl
  unfold extractBorderData
  dsimp only
  rw [samples,List.range_succ_eq_map,List.map_cons,Nat.zero_mul,Nat.zero_div,
    List.filterMap_cons,detected]
  simp only [List.isEmpty_cons]
  rw [texts,List.findSome?_cons,hs]
  rfl

end Text

section RoundTrip

/-- A printable text that fits into the corner, and into the border of each frame. -/
structure Encodable (frames : List Frame) (data : String) : Prop where
  printable : ∀ c ∈ data.toList,Printable c.toNat
  short : data.length≤194
  large : ∀ frame ∈ frames,80≤frame.height ∧ 80≤frame.width ∧
    8*(data.length+6)≤frame.width+frame.height-40

/-- The bytes that the corner of a frame is read as. -/
def cornerBytes (lib : Libraries) (frame : Frame) : List Nat :=
  bytesOfBits (cornerBits lib 40 frame)

/-- What the corner of a frame says after its first bytes. -/
def extraText (lib : Libraries) (frame : Frame) (n : Nat) : List Char :=
  (((cornerBytes lib frame).drop n).filter fun byte => Printable byte).map Char.ofNat

theorem toNat_ofNat_of_printable {n : Nat} (h : Printable n) : (Char.ofNat n).toNat=n := by
  have valid : n.isValidChar := Or.inl (by have bound := h.2; omega)
  rw [Char.ofNat,dif_pos valid]
  rfl

theorem printable_extraText {n : Nat} {c : Char} (h : c∈extraText lib frame n) :
    Printable c.toNat := by
  obtain ⟨byte,hb,rfl⟩ := List.mem_map.mp h
  have printable : Printable byte := by simpa using (List.mem_filter.mp hb).2
  rwa [toNat_ofNat_of_printable printable]

theorem length_cornerBytes : (cornerBytes lib frame).length=200 := by
  apply length_bytesOfBits
  simp [cornerBits,length_corner]

theorem printable_marked (h : ∀ c ∈ data.toList,Printable c.toNat) :
    ∀ c ∈ ("STEGO:"++data).toList,Printable c.toNat := by
  intro c hc
  rw [String.toList_append] at hc
  obtain marker|tail := List.mem_append.mp hc
  · have all : ("STEGO:".toList.all fun c => Printable c.toNat)=true := by decide
    exact of_decide_eq_true (List.all_eq_true.mp all c marker)
  · exact h c tail

/-- The corner of a bordered frame says the text, and then what the frame said before. -/
theorem binaryToText_bordered {next : Frame} {text : String}
    (hp : ∀ c ∈ text.toList,Printable c.toNat)
    (hb : cornerBits lib 40 next=textToBinary text++
      (cornerBits lib 40 frame).drop (textToBinary text).length) :
    binaryToText (cornerBits lib 40 next)=
      String.ofList (text.toList++extraText lib frame text.length) := by
  have size : (cornerBits lib 40 next).length=8*(199+1) := by simp [cornerBits,length_corner]
  rw [binaryToText_eq size,hb,bytesOfBits_append (length_textToBinary text)]
  unfold textToBinary
  rw [bytesOfBits_flatMap,toNat_utf8 hp,List.filter_append,List.map_append,map_ofNat_toNat hp]
  have length := length_textToBinary text
  unfold textToBinary at length
  rw [length,length_utf8 hp,← drop_bytesOfBits]
  rfl

/-- The bordered video says the text, and then what the corner of its first frame said. -/
theorem exists_addDataBorderToFrames {first : Frame} {rest : List Frame} (hl : lib.Local)
    (he : Encodable (first::rest) data) :
    ∃ bordered,addDataBorderToFrames lib (first::rest) data=some bordered ∧
      ((∀ frame ∈ bordered,lib.detectBorderInFrame frame=true) →
        extractBorderData lib bordered=
          String.ofList (("STEGO:"++data).toList++extraText lib first (data.length+6))) := by
  have printable := printable_marked he.printable
  have marked : ("STEGO:"++data).length=data.length+6 := by
    rw [String.length_append]
    have marker : "STEGO:".length=6 := rfl
    omega
  have bits : (textToBinary ("STEGO:"++data)).length=8*(data.length+6) := by
    rw [length_textToBinary,length_utf8 printable,marked]
  have short := he.short
  obtain ⟨hh,hw,fits⟩ := he.large first List.mem_cons_self
  have filled : textToBinary ("STEGO:"++data)≠[] := List.ne_nil_of_length_pos (by omega)
  obtain ⟨next,created,drawn⟩ := @exists_createDataBorder lib first ("STEGO:"++data) hl hh hw
    (by omega) filled 0 (first::rest).length
  have start : frameData first (textToBinary ("STEGO:"++data)) 0 20=
      textToBinary ("STEGO:"++data) := by
    rw [frameData_eq_rotate (by omega),Nat.zero_mul,Nat.zero_div,List.rotate_zero]
  obtain ⟨high,wide,corner⟩ := drawn (isOneBit_color _)
  rw [start] at corner
  obtain ⟨others,created_others⟩ : ∃ others,(rest.zipIdx 1).mapM (fun entry =>
      createDataBorder lib entry.1 ("STEGO:"++data) entry.2 (first::rest).length 20)=
        some others := by
    apply exists_mapM
    intro entry hm
    obtain ⟨large,tall,_⟩ :=
      he.large entry.1 (List.mem_cons_of_mem _ (List.fst_mem_of_mem_zipIdx hm))
    obtain ⟨other,ho,_⟩ := @exists_createDataBorder lib entry.1 ("STEGO:"++data) hl large tall
      (by omega) filled entry.2 (first::rest).length
    exact ⟨other,ho⟩
  refine ⟨next::others,?_,?_⟩
  · unfold addDataBorderToFrames
    rw [List.zipIdx_cons,List.mapM_cons]
    dsimp only
    rw [created,created_others]
    rfl
  · intro accepted
    let text := String.ofList (("STEGO:"++data).toList++extraText lib first (data.length+6))
    have said : text.toList=
        "STEGO:".toList++(data.toList++extraText lib first (data.length+6)) := by
      rw [String.toList_ofList,String.toList_append,List.append_assoc]
    have decoded : decodeBorderData lib next 20=some text := by
      unfold decodeBorderData
      rw [if_neg (by omega),binaryToText_bordered printable corner,marked]
    have long : text.length≤200 := by
      have extra : (extraText lib first (data.length+6)).length≤200-(data.length+6) := by
        unfold extraText
        rw [List.length_map]
        refine (List.length_filter_le _ _).trans ?_
        rw [List.length_drop,length_cornerBytes]
      rw [← String.length_toList,String.toList_ofList,List.length_append,String.length_toList,
        marked]
      omega
    apply extractBorderData_eq (accepted next List.mem_cons_self) decoded
    · apply stegoFragment_eq said ?_ long
      intro c hc
      obtain head|tail := List.mem_append.mp hc
      · exact he.printable c head
      · exact printable_extraText tail
    · intro none
      have lengths := congrArg List.length said
      have marker : "STEGO:".toList.length=6 := by decide
      have empty : "".toList.length=0 := by decide
      rw [List.length_append,none] at lengths
      omega

/-- The corner of the first frame says nothing after the place of the data. -/
def SilentCorner (lib : Libraries) (frames : List Frame) (n : Nat) : Prop :=
  match frames with
  | [] => False
  | first::_ => ∀ byte ∈ (cornerBytes lib first).drop n,¬Printable byte

instance decidableSilentCorner (n : Nat) :
    (frames : List Frame) → Decidable (SilentCorner lib frames n)
  | [] => inferInstanceAs (Decidable False)
  | first::_ => inferInstanceAs
      (Decidable (∀ byte ∈ (cornerBytes lib first).drop n,¬Printable byte))

/-- The text that is read from the corner of a bordered video is the one that was drawn if and
only if the video has a frame, and the corner of its first frame has no printable byte after the
place of the data. -/
theorem extractBorderData_iff (lib : Libraries) (hl : lib.Local) (frames : List Frame)
    (data : String) (he : Encodable frames data) :
    ∃ bordered,addDataBorderToFrames lib frames data=some bordered ∧
      ((∀ frame ∈ bordered,lib.detectBorderInFrame frame=true) →
        (extractBorderData lib bordered="STEGO:"++data ↔
          SilentCorner lib frames (data.length+6))) := by
  cases frames with
  | nil =>
    refine ⟨[],rfl,fun _ => ?_⟩
    constructor
    · intro h
      have heads := congrArg (fun text : String => text.toList.head?) h
      have marker : ("STEGO:".toList++data.toList).head?=some 'S' := by
        have first : "STEGO:".toList.head?=some 'S' := by decide
        rw [List.head?_append,first]
        rfl
      simp only [String.toList_append,marker] at heads
      have answer : (extractBorderData lib []).toList.head?=some 'N' := by
        have none : extractBorderData lib []="No frames with border encoding found" := rfl
        rw [none]
        decide
      rw [answer] at heads
      cases heads
    · exact False.elim
  | cons first rest =>
    obtain ⟨bordered,added,extracted⟩ := exists_addDataBorderToFrames hl he
    refine ⟨bordered,added,fun accepted => ?_⟩
    rw [extracted accepted]
    have exact_iff : String.ofList (("STEGO:"++data).toList++
        extraText lib first (data.length+6))="STEGO:"++data ↔
        extraText lib first (data.length+6)=[] := by
      rw [← String.toList_inj,String.toList_ofList]
      exact List.append_right_eq_self
    rw [exact_iff]
    unfold extraText SilentCorner
    rw [List.map_eq_nil_iff,List.filter_eq_nil_iff]
    simp

end RoundTrip

section Answers

theorem printable_binaryToText (bits : List Bool) :
    ∀ c ∈ (binaryToText bits).toList,Printable c.toNat := by
  intro c hc
  unfold binaryToText at hc
  split at hc
  · simp at hc
  · rw [String.toList_ofList] at hc
    obtain ⟨byte,hb,rfl⟩ := List.mem_map.mp hc
    have printable : Printable byte := by simpa using (List.mem_filter.mp hb).2
    rwa [toNat_ofNat_of_printable printable]

theorem stegoFragment_ne_empty {text fragment : String} (h : stegoFragment text=some fragment) :
    fragment≠"" := by
  obtain ⟨start,hf,rfl⟩ := Option.map_eq_some_iff.mp h
  unfold find at hf
  obtain ⟨long,marked,_⟩ := List.findIdx?_eq_some_iff_getElem.mp hf
  rw [List.getElem_tails] at marked
  obtain ⟨rest,eq⟩ := List.isPrefixOf_iff_prefix.mp marked
  have first : 'S'∈((text.toList.drop start).take 200).filter isprintable := by
    rw [← eq]
    have head : "STEGO:".toList= 'S'::"TEGO:".toList := by decide
    have printable : isprintable 'S'=true := by decide
    rw [head]
    simp [printable]
  intro none
  rw [← String.toList_inj,String.toList_ofList] at none
  rw [none] at first
  simp at first

theorem mem_frameTexts {frames : List Frame} {text : String} (h : text∈frameTexts lib frames) :
    text≠"" ∧ ∀ c ∈ text.toList,Printable c.toNat := by
  obtain ⟨frame,_,hf⟩ := List.mem_filterMap.mp h
  obtain ⟨decoded,filled⟩ := Option.filter_eq_some_iff.mp hf
  refine ⟨by simpa using filled,?_⟩
  unfold decodeBorderData at decoded
  split at decoded
  · cases decoded
  · obtain rfl := Option.some.inj decoded
    exact printable_binaryToText _

/-- There is always an answer. -/
theorem extractBorderData_ne_empty (frames : List Frame) : extractBorderData lib frames≠"" := by
  unfold extractBorderData
  dsimp only
  generalize List.filterMap _ _=rawFrames
  split
  · decide
  · split
    · next fragment hs =>
      obtain ⟨text,_,found⟩ := List.exists_of_findSome?_eq_some hs
      exact stegoFragment_ne_empty found
    · cases ht : frameTexts lib rawFrames with
      | nil => decide
      | cons text texts =>
        obtain ⟨filled,printable⟩ := mem_frameTexts (ht ▸ List.mem_cons_self)
        cases hc : text.toList with
        | nil => exact absurd (String.toList_inj.mp hc) filled
        | cons c cs =>
          have first : c∈(" ".intercalate (text::texts)).toList.filter isprintable := by
            rw [List.mem_filter,String.toList_intercalate]
            refine ⟨?_,decide_eq_true (printable c (hc ▸ List.mem_cons_self))⟩
            cases texts <;> simp [hc]
          rw [if_neg (by simp)]
          intro none
          rw [← String.toList_inj,String.toList_ofList] at none
          rw [none] at first
          simp at first

end Answers

namespace Greeting

instance (p q : Point) (margin : Int) (y x : Nat) : Decidable (InBox p q margin y x) :=
  inferInstanceAs (Decidable (_ ∧ _ ∧ _ ∧ _))

def paint (frame : Frame) (shape : Nat → Nat → Bool) (color : Pixel) : Frame :=
  { frame with pixel := fun y x => if shape y x then color else frame.pixel y x }

theorem drawnInBox_paint {shape : Nat → Nat → Bool} {color : Pixel} {p q : Point} {margin : Int}
    (h : ∀ y x,shape y x=true → InBox p q margin y x) :
    DrawnInBox p q margin (paint frame shape color) frame := by
  refine ⟨rfl,rfl,?_⟩
  intro y x outside
  exact if_neg fun inside => outside (h y x inside)

/-- The shapes of the decorations, whose lines are diagonal, and what numpy 2 makes of bytes. The
green corner of a bordered frame is always detected. -/
def libraries : Libraries where
  rectangle frame p q color thickness := paint frame (fun y x =>
    InBox p q (reach thickness/2) y x ∧ (thickness<0 ∨ ¬InBox (p.1+1,p.2+1) (q.1-1,q.2-1) 0 y x))
    color
  line frame p q color _ := paint frame (fun y x =>
    InBox p q 0 y x ∧ (x-p.1)*(q.2-p.2)=(y-p.2)*(q.1-p.1)) color
  circle frame center radius color thickness := paint frame (fun y x =>
    let squared := (x-center.1)*(x-center.1)+(y-center.2)*(y-center.2)
    InBox (center.1-radius,center.2-radius) (center.1+radius,center.2+radius)
      (reach thickness/2) y x ∧
    (radius-1)*(radius-1) ≤ squared ∧ squared≤(radius+1)*(radius+1)) color
  addWeighted a b :=
    let sum := fun a b : UInt8 => UInt8.ofNat ((4*a.toNat+6*b.toNat+5)/10)
    ⟨sum a.b b.b,sum a.g b.g,sum a.r b.r⟩
  wraps := true
  detectBorderInFrame _ := true

theorem reach_nonneg (thickness : Int) : 0 ≤ reach thickness := by
  unfold reach
  split <;> omega

theorem inBox_mono {p q : Point} {small margin : Int} {y x : Nat} (h : InBox p q small y x)
    (hs : small ≤ margin) : InBox p q margin y x := by
  unfold InBox at h ⊢
  omega

theorem local_libraries : libraries.Local := by
  refine ⟨?_,?_,?_⟩
  · intro frame p q color thickness
    apply drawnInBox_paint
    intro y x inside
    have positive := reach_nonneg thickness
    exact inBox_mono (of_decide_eq_true inside).1 (by omega)
  · intro frame p q color thickness
    apply drawnInBox_paint
    intro y x inside
    exact inBox_mono (of_decide_eq_true inside).1 (reach_nonneg thickness)
  · intro frame center radius color thickness
    apply drawnInBox_paint
    intro y x inside
    have positive := reach_nonneg thickness
    exact inBox_mono (of_decide_eq_true inside).1 (by omega)

def black : Frame := ⟨80,80,fun _ _ => ⟨0,0,0⟩⟩

/-- A picture whose corner is read as a row of the letter A. -/
def photo : Frame :=
  ⟨80,80,fun y x => if (40*y+x)%8=1 ∨ (40*y+x)%8=7 then ⟨0,0,255⟩ else ⟨0,0,0⟩⟩

theorem encodable (frame : Frame) (h : frame.height=80 ∧ frame.width=80) :
    Encodable [frame] "hi" := by
  have printable : ("hi".toList.all fun c => Printable c.toNat)=true := by decide
  refine ⟨fun c hc => of_decide_eq_true (List.all_eq_true.mp printable c hc),by decide,?_⟩
  intro other ho
  obtain rfl := List.mem_singleton.mp ho
  have short : "hi".length=2 := by decide
  omega

theorem silentCorner_black : SilentCorner libraries [black] ("hi".length+6) := by
  decide +kernel

theorem extraText_photo : extraText libraries photo ("hi".length+6)≠[] := by
  decide +kernel

end Greeting

open Greeting in
theorem extractBorderData_iff_black : ∃ bordered,
    addDataBorderToFrames libraries [black] "hi"=some bordered ∧
      extractBorderData libraries bordered="STEGO:hi" := by
  obtain ⟨bordered,added,exact_iff⟩ :=
    extractBorderData_iff libraries local_libraries [black] "hi" (encodable black ⟨rfl,rfl⟩)
  exact ⟨bordered,added,(exact_iff fun _ _ => rfl).mpr silentCorner_black⟩

open Greeting in
/-- What the picture showed in its corner is appended to the text. -/
theorem not_extractBorderData : ¬∀ bordered,
    addDataBorderToFrames libraries [photo] "hi"=some bordered →
      (∀ frame ∈ bordered,libraries.detectBorderInFrame frame=true) →
        extractBorderData libraries bordered="STEGO:hi" := by
  intro h
  obtain ⟨bordered,added,extracted⟩ :=
    exists_addDataBorderToFrames local_libraries (encodable photo ⟨rfl,rfl⟩)
  have said := h bordered added fun _ _ => rfl
  rw [extracted fun _ _ => rfl,← String.toList_inj,String.toList_ofList] at said
  exact extraText_photo (List.append_right_eq_self.mp said)

end TruthSeeker.Steganography
