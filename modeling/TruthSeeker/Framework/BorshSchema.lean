import TruthSeeker.Framework.Borsh

namespace TruthSeeker

open Bytes

/-- The schema of a binary format that is put together at runtime. -/
inductive BorshSchema where
  | string
  | u128
  | option (value : BorshSchema)
  | vec (item : BorshSchema)
  | struct (fields : List (String × BorshSchema))
  | enum (variants : List (String × BorshSchema))

/-- An untyped value, of which numbers are an arbitrary type. -/
inductive JsValue (ν : Type) where
  | undefined
  | number (x : ν)
  | string (s : String)
  | array (items : List (JsValue ν))
  | object (properties : List (String × JsValue ν))

namespace JsValue

/-- A property that is not there is `undefined`. -/
def property {ν : Type} (properties : List (String × JsValue ν)) (key : String) : JsValue ν :=
  (properties.lookup key).getD undefined

end JsValue

namespace BorshSchema

def concat : List (Option Bytes) → Option Bytes
  | [] => some []
  | bs::rest => bs.bind fun xs => (concat rest).map (xs++·)

/-- What a serializer does that goes by the schema: the fields of a record are looked up by their
keys, and an optional one that is missing is written as `None`. Nothing is said of values that do
not fit. -/
structure EncodesBySchema {ν : Type} (nat? : ν → Option Nat)
    (serialize : BorshSchema → JsValue ν → Option Bytes) : Prop where
  string : ∀ s,(utf8 s).length<2^32 → serialize .string (.string s)=Borsh.ser s
  u128 : ∀ x n,nat? x=some n → n<2^128 → serialize .u128 (.number x)=some (ofNatLE 16 n)
  none : ∀ schema,serialize (.option schema) .undefined=some [0]
  some : ∀ schema value,value≠.undefined →
    serialize (.option schema) value=(serialize schema value).map (1::·)
  vec : ∀ schema items,items.length<2^32 → serialize (.vec schema) (.array items)=
    (concat (items.map (serialize schema))).map (ofNatLE 4 items.length++·)
  struct : ∀ fields properties,serialize (.struct fields) (.object properties)=
    concat (fields.map fun field => serialize field.2 (JsValue.property properties field.1))
  enum : ∀ variants n key schema value,(variants.map Prod.fst).Nodup →
    variants[n]?=Option.some (key,schema) → n<256 →
      serialize (.enum variants) (.object [(key,value)])=
        (serialize schema value).map (UInt8.ofNat n::·)

section Reference
variable {ν : Type} (nat? : ν → Option Nat)

mutual

/-- A serializer by the schema that refuses what does not fit. -/
def encode : BorshSchema → JsValue ν → Option Bytes
  | .string,.string s => Borsh.ser s
  | .u128,.number x => (nat? x).bind fun n => if n<2^128 then some (ofNatLE 16 n) else none
  | .option _,.undefined => some [0]
  | .option schema,value => (encode schema value).map (1::·)
  | .vec schema,.array items => (concat (items.map (encode schema))).map (ofNatLE 4 items.length++·)
  | .struct fields,.object properties => concat (encodeFields fields properties)
  | .enum variants,.object [(key,value)] => encodeVariant variants 0 key value
  | _,_ => none

def encodeFields : List (String × BorshSchema) → List (String × JsValue ν) → List (Option Bytes)
  | [],_ => []
  | (key,schema)::fields,properties =>
      encode schema (JsValue.property properties key)::encodeFields fields properties

def encodeVariant : List (String × BorshSchema) → Nat → String → JsValue ν → Option Bytes
  | [],_,_,_ => none
  | (name,schema)::variants,n,key,value =>
      if name=key then (encode schema value).map (UInt8.ofNat n::·)
      else encodeVariant variants (n+1) key value

end

theorem encodeFields_eq (fields : List (String × BorshSchema))
    (properties : List (String × JsValue ν)) : encodeFields nat? fields properties=
      fields.map fun field => encode nat? field.2 (JsValue.property properties field.1) := by
  induction fields with
  | nil => rfl
  | cons field fields ih =>
    obtain ⟨key,schema⟩ := field
    rw [encodeFields,ih]
    rfl

theorem encodeVariant_eq {variants : List (String × BorshSchema)} {n k : Nat} {key : String}
    {schema : BorshSchema} (value : JsValue ν) (hd : (variants.map Prod.fst).Nodup)
    (hv : variants[n]?=some (key,schema)) : encodeVariant nat? variants k key value=
      (encode nat? schema value).map (UInt8.ofNat (k+n)::·) := by
  induction variants generalizing n k with
  | nil => simp at hv
  | cons variant variants ih =>
    obtain ⟨name,other⟩ := variant
    obtain ⟨fresh,distinct⟩ := List.nodup_cons.mp hd
    rw [encodeVariant]
    cases n with
    | zero =>
      obtain ⟨rfl,rfl⟩ := Prod.mk.inj (Option.some.inj hv)
      rw [if_pos rfl,Nat.add_zero]
    | succ n =>
      have found : variants[n]?=some (key,schema) := hv
      have later : key∈variants.map Prod.fst :=
        List.mem_map_of_mem (f := Prod.fst) (List.mem_of_getElem? found)
      have differs : name≠key := by
        rintro rfl
        exact fresh later
      rw [if_neg differs,ih distinct hv,Nat.add_right_comm,Nat.add_assoc]

theorem encodesBySchema_encode : EncodesBySchema nat? (encode nat?) where
  string s _ := by rw [encode]
  u128 x n hx hn := by rw [encode,hx,Option.bind_some,if_pos hn]
  none schema := by rw [encode]
  some schema value hv := by
    cases value with
    | undefined => exact absurd rfl hv
    | _ => rw [encode]; simp
  vec schema items _ := by rw [encode]
  struct fields properties := by rw [encode,encodeFields_eq]
  enum variants n key schema value hd hv _ := by
    rw [encode,encodeVariant_eq nat? value hd hv,Nat.zero_add]

end Reference

section Records
variable {α β : Type} [Borsh α] [Borsh β]

theorem concat_single {a : α} : concat [Borsh.ser a]=Borsh.ser a := by
  cases h : Borsh.ser a with
  | none => rfl
  | some xs => simp [concat]

/-- A record is written as the tuple of its fields. -/
theorem concat_cons {a : α} {b : β} {rest : List (Option Bytes)} (h : concat rest=Borsh.ser b) :
    concat (Borsh.ser a::rest)=Borsh.ser (a,b) := by
  rw [concat,h]
  rfl

theorem concat_map (as : List α) : concat (as.map Borsh.ser)=serItems as := by
  induction as with
  | nil => rfl
  | cons a as ih => rw [List.map_cons,concat,ih,serItems]

end Records

namespace EncodesBySchema
variable {ν : Type} {nat? : ν → Option Nat} {serialize : BorshSchema → JsValue ν → Option Bytes}
  (h : EncodesBySchema nat? serialize)

include h

theorem number {x : ν} {n : U128} (hx : nat? x=Option.some n.toNat) :
    serialize .u128 (.number x)=Borsh.ser n :=
  h.u128 x n.toNat hx n.isLt

theorem strings {ss : List String} (hl : ss.length<2^32)
    (hs : ∀ s ∈ ss,(utf8 s).length<2^32) :
    serialize (.vec .string) (.array (ss.map .string))=Borsh.ser ss := by
  have items : (ss.map JsValue.string).map (serialize .string)=ss.map Borsh.ser := by
    rw [List.map_map]
    exact List.map_congr_left fun s hs' => h.string s (hs s hs')
  rw [h.vec _ _ (by rwa [List.length_map]),items,concat_map,List.length_map]
  show _=if ss.length<2^32 then _ else _
  rw [if_pos hl]

/-- An optional field that is given as `undefined` if it is missing. -/
theorem optional {α : Type} [Borsh α] {schema : BorshSchema} {value : α → JsValue ν}
    (hv : ∀ a,value a≠.undefined) {o : Option α}
    (ho : ∀ a ∈ o,serialize schema (value a)=Borsh.ser a) :
    serialize (.option schema) (o.elim .undefined value)=Borsh.ser o := by
  cases o with
  | none => exact h.none schema
  | some a =>
    rw [Option.elim_some,h.some schema _ (hv a),ho a rfl]
    rfl

end EncodesBySchema

end BorshSchema

end TruthSeeker
