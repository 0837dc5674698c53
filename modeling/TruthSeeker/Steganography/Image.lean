import Mathlib.Data.Rat.Floor
import Mathlib.Data.List.Basic

namespace TruthSeeker.Steganography

/-- A pixel, in the order of the image library. -/
structure Pixel where
  b : UInt8
  g : UInt8
  r : UInt8
  deriving DecidableEq

/-- An image. Nothing is read outside of its height and width. -/
structure Frame where
  height : Nat
  width : Nat
  pixel : Nat → Nat → Pixel

abbrev Point := Int × Int

/-- The functions of the image library that draw on a frame, and the answers of the code that
rest on floating point or on the version of numpy. A shape of thickness -1 is filled. -/
structure Libraries where
  rectangle : Frame → Point → Point → Pixel → Int → Frame
  line : Frame → Point → Point → Pixel → Int → Frame
  circle : Frame → Point → Int → Pixel → Int → Frame
  /-- The sum of two pixels with the weights 0.4 and 0.6. -/
  addWeighted : Pixel → Pixel → Pixel
  /-- Whether a byte plus a small number wraps around, as it does from numpy 2 on. -/
  wraps : Bool
  detectBorderInFrame : Frame → Bool

namespace Frame

/-- Assignment to one pixel, which fails outside of the frame. -/
def set (self : Frame) (y x : Nat) (color : Pixel) : Option Frame :=
  if y < self.height ∧ x < self.width then
    some { self with pixel := fun i j => if i=y ∧ j=x then color else self.pixel i j }
  else none

/-- The blend with an overlay in the rows and columns of a mask, from the first to before the
last. -/
def blend (lib : Libraries) (self overlay : Frame) (rows cols : Int × Int) : Frame :=
  { self with pixel := fun y x =>
      if rows.1≤y ∧ y < rows.2 ∧ cols.1≤x ∧ x<cols.2 then
        lib.addWeighted (self.pixel y x) (overlay.pixel y x)
      else self.pixel y x }

end Frame

section Locality

/-- How far a shape may reach over its outline. -/
def reach (thickness : Int) : Int := if thickness≤1 then 0 else thickness

/-- Whether the pixel is at most that far from the box of two corners. -/
def InBox (p q : Point) (margin : Int) (y x : Nat) : Prop :=
  min p.1 q.1-margin≤x ∧ x ≤ max p.1 q.1+margin ∧ min p.2 q.2-margin≤y ∧ y ≤ max p.2 q.2+margin

/-- The frames have one size and the same pixels outside of the box. -/
structure DrawnInBox (p q : Point) (margin : Int) (next frame : Frame) : Prop where
  height : next.height=frame.height
  width : next.width=frame.width
  pixel : ∀ y x,¬InBox p q margin y x → next.pixel y x=frame.pixel y x

/-- Shapes are drawn where they are. -/
structure Libraries.Local (lib : Libraries) : Prop where
  rectangle : ∀ frame p q color thickness,
    DrawnInBox p q (reach thickness) (lib.rectangle frame p q color thickness) frame
  line : ∀ frame p q color thickness,
    DrawnInBox p q (reach thickness) (lib.line frame p q color thickness) frame
  circle : ∀ frame center radius color thickness,
    DrawnInBox (center.1-radius,center.2-radius) (center.1+radius,center.2+radius)
      (reach thickness) (lib.circle frame center radius color thickness) frame

/-- The frames have one size and the same pixels in the top left corner. -/
structure KeepsCorner (size : Nat) (next frame : Frame) : Prop where
  height : next.height=frame.height
  width : next.width=frame.width
  pixel : ∀ y x,y < size → x < size → next.pixel y x=frame.pixel y x

namespace KeepsCorner

variable {size : Nat} {next mid frame : Frame}

theorem refl : KeepsCorner size frame frame := ⟨rfl,rfl,fun _ _ _ _ => rfl⟩

theorem trans (h : KeepsCorner size next mid) (hm : KeepsCorner size mid frame) :
    KeepsCorner size next frame := by
  refine ⟨h.height.trans hm.height,h.width.trans hm.width,?_⟩
  intro y x hy hx
  rw [h.pixel y x hy hx,hm.pixel y x hy hx]

/-- A shape beside or below the corner. -/
theorem ofBox {p q : Point} {margin : Int} (h : DrawnInBox p q margin next frame)
    (hb : size ≤ min p.1 q.1-margin ∨ size ≤ min p.2 q.2-margin) : KeepsCorner size next frame := by
  refine ⟨h.height,h.width,?_⟩
  intro y x hy hx
  apply h.pixel
  unfold InBox
  omega

theorem blend {lib : Libraries} {overlay : Frame} {rows cols : Int × Int}
    (hb : size ≤ rows.1 ∨ size≤ cols.1) :
    KeepsCorner size (frame.blend lib overlay rows cols) frame := by
  refine ⟨rfl,rfl,?_⟩
  intro y x hy hx
  have outside : ¬(rows.1≤y ∧ y < rows.2 ∧ cols.1≤x ∧ x<cols.2) := by omega
  exact if_neg outside

/-- Drawing many shapes. -/
theorem foldl {α : Type} {draw : Frame → α → Frame} {shapes : List α}
    (h : ∀ frame,∀ shape ∈ shapes,KeepsCorner size (draw frame shape) frame) :
    KeepsCorner size (shapes.foldl draw frame) frame := by
  induction shapes generalizing frame with
  | nil => exact refl
  | cons shape shapes ih =>
    have first : KeepsCorner size (draw frame shape) frame := h frame shape List.mem_cons_self
    have rest : KeepsCorner size (shapes.foldl draw (draw frame shape)) (draw frame shape) :=
      ih fun frame shape hs => h frame shape (List.mem_cons_of_mem _ hs)
    exact rest.trans first

end KeepsCorner

end Locality

end TruthSeeker.Steganography
