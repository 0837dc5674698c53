import TruthSeeker.Framework.Borsh
import TruthSeeker.Framework.SparseMerkle

namespace TruthSeeker.SparseMerkle

section Saved
variable {Tree Value : Type} [Borsh Value]

/-- The number of the values in 32 bits, unchecked, then the values. -/
def serializeValues (values : List Value) : Option Bytes :=
  (serItems values).map (Bytes.ofNatLE 4 (values.length%2^32)++·)

/-- Reads as many values as are announced and stores them one by one. A value that the tree
refuses is a panic with the given text. -/
def readValues (refused : String) (update : Tree → Value → Option Tree) :
    Nat → Tree → Bytes → Outcome (Tree × Bytes)
  | 0,tree,bs => .ok (tree,bs)
  | n+1,tree,bs => do
    let (value,bs) ← Outcome.fromOption (Borsh.de bs) (.err "Unexpected length of input")
    let tree ← Outcome.fromOption (update tree value) (.panic refused)
    readValues refused update n tree bs

/-- `borsh::from_slice` of a tree that starts empty. -/
def deserializeTree (refused : String) (update : Tree → Value → Option Tree) (empty : Tree)
    (bs : Bytes) : Outcome Tree := do
  let (count,bs) ← Outcome.fromOption (Bytes.splitExact 4 bs) (.err "Unexpected length of input")
  let (tree,rest) ← readValues refused update (Bytes.toNatLE count) empty bs
  Outcome.ensure (rest=[]) "Not all bytes read"
  return tree

variable {refused : String} {update : Tree → Value → Option Tree} {empty : Tree}
  {values : List Value}

theorem readValues_serItems [LawfulBorsh Value] {tree last : Tree} {bs : Bytes}
    (hs : serItems values=some bs) (hu : values.foldlM update tree=some last) (rest : Bytes) :
    readValues refused update values.length tree (bs++rest)=.ok (last,rest) := by
  induction values generalizing tree bs with
  | nil =>
    obtain rfl : []=bs := by simpa [serItems] using hs
    obtain rfl : tree=last := by simpa using hu
    rfl
  | cons value values ih =>
    obtain ⟨xs,hx,hs⟩ := Option.bind_eq_some_iff.mp hs
    obtain ⟨ys,hy,rfl⟩ := Option.map_eq_some_iff.mp hs
    rw [List.foldlM_cons] at hu
    obtain ⟨next,hn,hu⟩ := Option.bind_eq_some_iff.mp hu
    rw [List.length_cons,readValues,List.append_assoc,LawfulBorsh.de_ser hx]
    exact Outcome.bind_eq_ok.mpr ⟨(value,ys++rest),rfl,
      Outcome.bind_eq_ok.mpr ⟨next,Outcome.fromOption_eq_ok.mpr hn,ih hy hu⟩⟩

/-- A tree that is read was stored from so many values. -/
theorem readValues_eq_ok {n : Nat} {tree last : Tree} {bs rest : Bytes}
    (h : readValues refused update n tree bs=.ok (last,rest)) :
    ∃ values : List Value,values.length=n ∧ values.foldlM update tree=some last := by
  induction n generalizing tree bs with
  | zero =>
    obtain ⟨rfl,_⟩ := Prod.mk.inj (Except.ok.inj h)
    exact ⟨[],rfl,rfl⟩
  | succ n ih =>
    rw [readValues] at h
    obtain ⟨⟨value,left⟩,hd,h⟩ := Outcome.bind_eq_ok.mp h
    obtain ⟨next,hn,h⟩ := Outcome.bind_eq_ok.mp h
    obtain ⟨values,hl,hu⟩ := ih h
    refine ⟨value::values,by rw [List.length_cons,hl],?_⟩
    rw [List.foldlM_cons,Outcome.fromOption_eq_ok.mp hn]
    exact hu

theorem deserializeTree_eq_ok {tree : Tree} {bs : Bytes}
    (h : deserializeTree refused update empty bs=.ok tree) :
    ∃ values : List Value,values.length<2^32 ∧ values.foldlM update empty=some tree := by
  obtain ⟨⟨count,body⟩,hc,h⟩ := Outcome.bind_eq_ok.mp h
  obtain ⟨⟨last,rest⟩,hr,h⟩ := Outcome.bind_eq_ok.mp h
  obtain ⟨_,_,h⟩ := Outcome.bind_eq_ok.mp h
  obtain rfl := Outcome.pure_eq_ok.mp h
  obtain ⟨values,hl,hu⟩ := readValues_eq_ok hr
  exact ⟨values,hl ▸ toNatLE_of_splitExact (Outcome.fromOption_eq_ok.mp hc),hu⟩

theorem deserializeTree_serializeValues [LawfulBorsh Value] {tree : Tree} {bs : Bytes}
    (hl : values.length<2^32) (hs : serializeValues values=some bs)
    (hu : values.foldlM update empty=some tree) :
    deserializeTree refused update empty bs=.ok tree := by
  obtain ⟨body,hb,rfl⟩ := Option.map_eq_some_iff.mp hs
  have read : readValues refused update values.length empty (body++[])=.ok (tree,[]) :=
    readValues_serItems hb hu []
  rw [List.append_nil] at read
  have count : Bytes.toNatLE (Bytes.ofNatLE 4 (values.length%2^32))=values.length := by
    rw [Nat.mod_eq_of_lt hl,Bytes.toNatLE_ofNatLE 4 _ (by omega)]
  refine Outcome.bind_eq_ok.mpr ⟨(Bytes.ofNatLE 4 (values.length%2^32),body),?_,
    Outcome.bind_eq_ok.mpr ⟨(tree,[]),?_,rfl⟩⟩
  · exact Outcome.fromOption_eq_ok.mpr (Bytes.splitExact_append 4 _ _ (Bytes.length_ofNatLE 4 _))
  · rw [count]
    exact read

/-- A tree is read as its image is, if storing commutes with the map. -/
theorem deserializeTree_map {Image : Type} {f : Tree → Image}
    {store : Image → Value → Option Image}
    (commutes : ∀ tree value,(update tree value).map f=store (f tree) value) (bs : Bytes) :
    (deserializeTree refused update empty bs).map f=
      deserializeTree refused store (f empty) bs := by
  have reads : ∀ n tree bs,(readValues refused update n tree bs).map (Prod.map f id)=
      readValues refused store n (f tree) bs := by
    intro n
    induction n with
    | zero => exact fun tree bs => rfl
    | succ n ih =>
      intro tree bs
      rw [readValues,readValues]
      cases hd : Borsh.de (α := Value) bs with
      | none => rfl
      | some read =>
        have stored := commutes tree read.1
        cases hu : update tree read.1 with
        | none =>
          rw [hu,Option.map_none] at stored
          simp only [Outcome.fromOption,bind,Except.bind,hu,← stored]
          rfl
        | some next =>
          rw [hu,Option.map_some] at stored
          simp only [Outcome.fromOption,bind,Except.bind,hu,← stored]
          exact ih next read.2
  rw [deserializeTree,deserializeTree]
  cases hc : Bytes.splitExact 4 bs with
  | none => rfl
  | some read =>
    simp only [Outcome.fromOption,bind,Except.bind,← reads]
    cases hr : readValues refused update (Bytes.toNatLE read.1) empty read.2 with
    | error fault => rfl
    | ok last =>
      simp only [Except.map,Prod.map]
      by_cases done : last.2=[]
      · simp [Outcome.ensure,done,pure,Except.pure]
      · simp [Outcome.ensure,done,Outcome.err]

/-- What can always be stored once it has been read does not panic. -/
theorem quiet_deserializeTree
    (stores : ∀ tree (bs rest : Bytes) (value : Value),Borsh.de bs=some (value,rest) →
      ∃ next,update tree value=some next) (bs : Bytes) :
    Outcome.Quiet (deserializeTree refused update empty bs) := by
  have reads : ∀ n tree bs,Outcome.Quiet (readValues refused update n tree bs) := by
    intro n
    induction n with
    | zero => exact fun tree bs => Outcome.Quiet.of_ok
    | succ n ih =>
      intro tree bs
      refine Outcome.Quiet.fromOption.bind fun read hd => ?_
      obtain ⟨next,hn⟩ := stores tree bs read.2 read.1 (Outcome.fromOption_eq_ok.mp hd)
      simp only [hn,Outcome.fromOption]
      exact ih next read.2
  refine Outcome.Quiet.fromOption.bind fun read _ => ?_
  refine (reads _ _ _).bind fun last _ => ?_
  exact Outcome.Quiet.ensure.bind fun _ _ => Outcome.Quiet.of_ok

end Saved

namespace Store

section Reload
variable {Key Value Leaf : Type} [Ord Key] [Std.TransOrd Key] [Std.LawfulEqOrd Key]
  [DecidableEq Leaf] {leafOf : Value → Option Leaf} {zero : Leaf} (keyOf : Value → Key)

/-- Stores a value under its own key. -/
def put (t : Store Key leafOf zero) (value : Value) : Option (Store Key leafOf zero) :=
  t.update (keyOf value) value

/-- Every value is under its own key. -/
def Keyed (t : Store Key leafOf zero) : Prop :=
  ∀ key value,t.values[key]?=some value → keyOf value=key

variable {keyOf} {t fresh : Store Key leafOf zero} {values : List Value}

theorem Keyed.put {value : Value} (h : t.Keyed keyOf) (hp : t.put keyOf value=some fresh) :
    fresh.Keyed keyOf := by
  intro key other found
  obtain ⟨l,hl,_⟩ := update_eq_some.mp hp
  by_cases same : key=keyOf value
  · subst same
    rw [getElem?_update_self hp hl] at found
    split_ifs at found
    rw [← Option.some.inj found]
  · rw [getElem?_update_of_ne hp same] at found
    exact h key other found

omit [Std.LawfulEqOrd Key] in
theorem size_put {value : Value} (hp : t.put keyOf value=some fresh) :
    fresh.values.size≤t.values.size+1 := by
  obtain ⟨l,_,hv⟩ := update_eq_some.mp hp
  rw [hv]
  split_ifs
  · exact Std.ExtTreeMap.size_erase_le.trans (Nat.le_succ _)
  · exact Std.ExtTreeMap.size_insert_le

/-- What is stored value by value is keyed and has no more values than were stored. -/
theorem Keyed.foldlM_put (h : t.Keyed keyOf) (hf : values.foldlM (Store.put keyOf) t=some fresh) :
    fresh.Keyed keyOf ∧ fresh.values.size≤t.values.size+values.length := by
  induction values generalizing t with
  | nil =>
    obtain rfl : t=fresh := by simpa using hf
    exact ⟨h,le_rfl⟩
  | cons value values ih =>
    rw [List.foldlM_cons] at hf
    obtain ⟨next,hn,hf⟩ := Option.bind_eq_some_iff.mp hf
    obtain ⟨keyed,size⟩ := ih (h.put hn) hf
    have one := size_put hn
    rw [List.length_cons]
    exact ⟨keyed,by omega⟩

theorem exists_foldlM_put (nodup : (values.map keyOf).Nodup)
    (leaves : ∀ value ∈ values,∃ l,leafOf value=some l ∧ l≠zero) :
    ∃ fresh,values.foldlM (put keyOf) t=some fresh ∧
      (∀ value ∈ values,fresh.values[keyOf value]?=some value) ∧
      ∀ key,key∉values.map keyOf → fresh.values[key]?=t.values[key]? := by
  induction values generalizing t with
  | nil => exact ⟨t,rfl,by simp,fun _ _ => rfl⟩
  | cons value values ih =>
    obtain ⟨apart,nodup⟩ := List.nodup_cons.mp nodup
    obtain ⟨l,hl,nonzero⟩ := leaves value List.mem_cons_self
    obtain ⟨next,hn⟩ := (exists_update t (keyOf value) value).mpr ⟨l,hl⟩
    obtain ⟨fresh,hf,stored,others⟩ := ih (t := next) nodup
      fun v hv => leaves v (List.mem_cons_of_mem _ hv)
    refine ⟨fresh,?_,?_,?_⟩
    · rw [List.foldlM_cons]
      exact Option.bind_eq_some_iff.mpr ⟨next,hn,hf⟩
    · rw [List.forall_mem_cons]
      refine ⟨?_,stored⟩
      rw [others _ apart,getElem?_update_self hn hl,if_neg nonzero]
    · intro key absent
      rw [List.map_cons,List.mem_cons,not_or] at absent
      rw [others key absent.2,getElem?_update_of_ne hn absent.1]

/-- The values of a keyed tree, stored again in any order. -/
theorem reload (keyed : t.Keyed keyOf) {order : List Value}
    (ho : order.Perm (t.values.toList.map Prod.snd)) :
    order.foldlM (put keyOf) empty=some t := by
  have listed : ∀ value,value ∈ order ↔ t.values[keyOf value]?=some value := by
    intro value
    rw [ho.mem_iff,List.mem_map]
    constructor
    · intro h
      obtain ⟨⟨key,_⟩,hp,rfl⟩ := h
      have found := Std.ExtTreeMap.mem_toList_iff_getElem?_eq_some.mp hp
      rw [keyed key _ found]
      exact found
    · intro found
      exact ⟨(keyOf value,value),Std.ExtTreeMap.mem_toList_iff_getElem?_eq_some.mpr found,rfl⟩
  have nodup : (order.map keyOf).Nodup := by
    have keys : (t.values.toList.map Prod.snd).map keyOf=t.values.toList.map Prod.fst := by
      rw [List.map_map]
      apply List.map_congr_left
      intro p hp
      exact keyed p.1 p.2 (Std.ExtTreeMap.mem_toList_iff_getElem?_eq_some.mp hp)
    rw [(ho.map keyOf).nodup_iff,keys,Std.ExtTreeMap.map_fst_toList_eq_keys]
    exact Std.ExtTreeMap.nodup_keys
  obtain ⟨fresh,hf,stored,others⟩ := exists_foldlM_put (t := empty) nodup
    fun value hv => t.stored _ _ ((listed value).mp hv)
  rw [hf]
  refine congrArg some (ext (Std.ExtTreeMap.ext_getElem? ?_))
  intro key
  cases found : t.values[key]? with
  | some value =>
    have same := keyed key value found
    subst same
    exact stored value ((listed value).mpr found)
  | none =>
    rw [others key]
    · rfl
    · intro hk
      obtain ⟨value,hv,rfl⟩ := List.mem_map.mp hk
      rw [(listed value).mp hv] at found
      cases found

/-- A keyed tree, saved in any order of its values, is read again exactly if their number fits
into 32 bits. -/
theorem deserializeTree_serializeValues_iff [Borsh Value] [LawfulBorsh Value] {refused : String}
    (keyed : t.Keyed keyOf) {order : List Value}
    (ho : order.Perm (t.values.toList.map Prod.snd))
    (writes : ∀ (key : Key) (value : Value),t.values[key]?=some value →
      ∃ bs,Borsh.ser value=some bs) :
    ∃ bs,serializeValues order=some bs ∧
      (deserializeTree refused (put keyOf) empty bs=.ok t ↔ t.values.size<2^32) := by
  have size : order.length=t.values.size := by
    rw [ho.length_eq,List.length_map,Std.ExtTreeMap.length_toList]
  obtain ⟨body,hb⟩ := exists_serItems.mpr fun value (listed : value ∈ order) => by
    obtain ⟨p,hp,rfl⟩ := List.mem_map.mp (ho.mem_iff.mp listed)
    exact writes p.1 p.2 (Std.ExtTreeMap.mem_toList_iff_getElem?_eq_some.mp hp)
  have hs : serializeValues order=some (Bytes.ofNatLE 4 (order.length%2^32)++body) := by
    rw [serializeValues,hb]
    rfl
  refine ⟨_,hs,?_,?_⟩
  · intro read
    obtain ⟨values,short,stored⟩ := deserializeTree_eq_ok read
    have start : (empty : Store Key leafOf zero).Keyed keyOf := fun _ _ found => by
      simp [empty] at found
    have bound := (start.foldlM_put stored).2
    have none : (empty : Store Key leafOf zero).values.size=0 := rfl
    omega
  · intro fits
    exact deserializeTree_serializeValues (by omega) hs (reload keyed ho)

end Reload

end Store

end TruthSeeker.SparseMerkle
