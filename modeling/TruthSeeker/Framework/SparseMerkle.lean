import Mathlib.Logic.Function.Basic
import Std.Data.ExtTreeMap
import TruthSeeker.Framework.Outcome

namespace TruthSeeker.SparseMerkle

variable {Key Leaf Root Proof : Type}

/-- A tree with one leaf for every key. `root` commits to all the leaves;
`computeRoot` is the root that a partial proof gives to the listed leaves. -/
structure Scheme (Key Leaf Root Proof : Type) where
  root : (Key → Leaf) → Root
  computeRoot : Proof → List (Key × Leaf) → Except String Root

def Scheme.verify [DecidableEq Root] (S : Scheme Key Leaf Root Proof) (proof : Proof)
    (root : Root) (leaves : List (Key × Leaf)) : Except String Bool :=
  (S.computeRoot proof leaves).map (fun r => decide (r=root))

/-- The listed leaves written one after the other. -/
def setLeaves [DecidableEq Key] (tree : Key → Leaf) (leaves : List (Key × Leaf)) : Key → Leaf :=
  leaves.foldl (fun t p => Function.update t p.1 p.2) tree

/-- A proof that opens the root of a tree only at its leaves, and that recomputes
the root of the tree when these leaves change. -/
structure Sound [DecidableEq Key] (S : Scheme Key Leaf Root Proof) (proof : Proof)
    (tree : Key → Leaf) : Prop where
  opens : ∀ leaves,S.computeRoot proof leaves=.ok (S.root tree) → ∀ p∈leaves,tree p.1=p.2
  recomputes : ∀ leaves fresh,(leaves.map Prod.fst).Nodup →
    S.computeRoot proof leaves=.ok (S.root tree) →
    fresh.map Prod.fst=leaves.map Prod.fst →
    S.computeRoot proof fresh=.ok (S.root (setLeaves tree fresh))

theorem setLeaves_of_not_mem [DecidableEq Key] (tree : Key → Leaf) (leaves : List (Key × Leaf))
    (key : Key) (h : key∉leaves.map Prod.fst) : setLeaves tree leaves key=tree key := by
  induction leaves generalizing tree with
  | nil => rfl
  | cons p ps ih =>
    have hp : key≠p.1 := fun he => h (by simp [he])
    have hs : key∉ps.map Prod.fst := fun hm => h (List.mem_cons_of_mem _ hm)
    change setLeaves (Function.update tree p.1 p.2) ps key=_
    rw [ih _ hs,Function.update_of_ne hp]

theorem setLeaves_of_mem [DecidableEq Key] (tree : Key → Leaf) (leaves : List (Key × Leaf))
    (hd : (leaves.map Prod.fst).Nodup) (key : Key) (leaf : Leaf) (h : (key,leaf)∈leaves) :
    setLeaves tree leaves key=leaf := by
  induction leaves generalizing tree with
  | nil => cases h
  | cons p ps ih =>
    rw [List.map_cons,List.nodup_cons] at hd
    change setLeaves (Function.update tree p.1 p.2) ps key=leaf
    rcases List.mem_cons.mp h with rfl | hm
    · rw [setLeaves_of_not_mem _ ps key hd.1,Function.update_self]
    · exact ih _ hd.2 hm

/-- Writing leaves that a tree already has does not change it. -/
theorem setLeaves_self [DecidableEq Key] (tree : Key → Leaf) (leaves : List (Key × Leaf))
    (h : ∀ p∈leaves,tree p.1=p.2) : setLeaves tree leaves=tree := by
  induction leaves with
  | nil => rfl
  | cons p ps ih =>
    change setLeaves (Function.update tree p.1 p.2) ps=tree
    rw [← h p (by simp),Function.update_eq_self]
    exact ih (fun q hq => h q (List.mem_cons_of_mem _ hq))

/-- Writing back the old leaves of the changed keys restores the tree. -/
theorem setLeaves_restore [DecidableEq Key] (tree : Key → Leaf) (leaves : List (Key × Leaf))
    (hd : (leaves.map Prod.fst).Nodup) :
    setLeaves (setLeaves tree leaves) ((leaves.map Prod.fst).map (fun k => (k,tree k)))=tree := by
  have hk : ((leaves.map Prod.fst).map (fun k => (k,tree k))).map Prod.fst=
      leaves.map Prod.fst := by
    rw [List.map_map]
    exact List.map_id _
  funext key
  by_cases hm : key∈leaves.map Prod.fst
  · apply setLeaves_of_mem
    · rw [hk]
      exact hd
    · exact List.mem_map.mpr ⟨key,hm,rfl⟩
  · rw [setLeaves_of_not_mem _ _ _ (by rwa [hk]),setLeaves_of_not_mem _ _ _ hm]

theorem eq_graph {leaves : List (Key × Leaf)} {f : Key → Leaf} (h : ∀ p∈leaves,f p.1=p.2) :
    leaves=(leaves.map Prod.fst).map (fun k => (k,f k)) := by
  induction leaves with
  | nil => rfl
  | cons p ps ih =>
    have hp : p=(p.1,f p.1) := Prod.ext rfl (h p (by simp)).symm
    rw [List.map_cons,List.map_cons,← ih (fun q hq => h q (List.mem_cons_of_mem _ hq)),← hp]

/-- Leaves that a changed tree opens at the changed keys are the leaves written there. -/
theorem eq_of_opens_changed [DecidableEq Key] {tree : Key → Leaf}
    {leaves fresh : List (Key × Leaf)} (hd : (fresh.map Prod.fst).Nodup)
    (hk : leaves.map Prod.fst=fresh.map Prod.fst)
    (h : ∀ p∈leaves,setLeaves tree fresh p.1=p.2) : leaves=fresh := by
  have hf : ∀ p∈fresh,setLeaves tree fresh p.1=p.2 :=
    fun p hp => setLeaves_of_mem tree fresh hd p.1 p.2 hp
  rw [eq_graph h,hk,← eq_graph hf]

theorem verify_computed [DecidableEq Root] {S : Scheme Key Leaf Root Proof} {proof : Proof}
    {leaves : List (Key × Leaf)} {root : Root} (h : S.computeRoot proof leaves=.ok root) :
    S.verify proof root leaves=.ok true := by
  simp [Scheme.verify,h,Except.map]

theorem verify_eq_true [DecidableEq Root] {S : Scheme Key Leaf Root Proof} {proof : Proof}
    {leaves : List (Key × Leaf)} {root : Root} :
    S.verify proof root leaves=.ok true ↔ S.computeRoot proof leaves=.ok root := by
  unfold Scheme.verify
  cases h : S.computeRoot proof leaves with
  | error e => simp [Except.map]
  | ok r => simp [Except.map]

section Single
variable [DecidableEq Key] {S : Scheme Key Leaf Root Proof} {proof : Proof} {tree : Key → Leaf}

@[simp] theorem setLeaves_single (tree : Key → Leaf) (key : Key) (leaf : Leaf) :
    setLeaves tree [(key,leaf)]=Function.update tree key leaf := rfl

theorem Sound.opens_single (sound : Sound S proof tree) {key : Key} {leaf : Leaf}
    (h : S.computeRoot proof [(key,leaf)]=.ok (S.root tree)) : tree key=leaf :=
  sound.opens [(key,leaf)] h (key,leaf) (by simp)

theorem Sound.recomputes_single (sound : Sound S proof tree) {key : Key} {leaf fresh : Leaf}
    (h : S.computeRoot proof [(key,leaf)]=.ok (S.root tree)) :
    S.computeRoot proof [(key,fresh)]=.ok (S.root (Function.update tree key fresh)) :=
  sound.recomputes [(key,leaf)] [(key,fresh)] (by simp) h rfl

end Single

/-- The values that a tree stores under their keys. A value whose leaf is empty is
removed, so every stored value has another leaf. -/
structure Store (Key : Type) {Value Leaf : Type} [Ord Key] [Std.TransOrd Key]
    (leafOf : Value → Option Leaf) (zero : Leaf) where
  values : Std.ExtTreeMap Key Value
  stored : ∀ (key : Key) (value : Value),values[key]?=some value → ∃ leaf,leafOf value=some leaf ∧ leaf≠zero

namespace Store
variable {Value : Type} [Ord Key] [Std.TransOrd Key] {leafOf : Value → Option Leaf} {zero : Leaf}

def leaf (t : Store Key leafOf zero) (key : Key) : Leaf :=
  (t.values[key]?.bind leafOf).getD zero

theorem leaf_of_some {t : Store Key leafOf zero} {key : Key} {value : Value} {l : Leaf}
    (hv : t.values[key]?=some value) (hl : leafOf value=some l) : t.leaf key=l := by
  simp [leaf,hv,hl]

theorem none_of_leaf_zero {t : Store Key leafOf zero} {key : Key} (h : t.leaf key=zero) :
    t.values[key]?=none := by
  cases hv : t.values[key]? with
  | none => rfl
  | some value =>
    obtain ⟨l,hl,hz⟩ := t.stored key value hv
    rw [leaf_of_some hv hl] at h
    exact absurd h hz

theorem some_of_leaf_ne_zero {t : Store Key leafOf zero} {key : Key} (h : t.leaf key≠zero) :
    ∃ value,t.values[key]?=some value ∧ leafOf value=some (t.leaf key) := by
  cases hv : t.values[key]? with
  | none => simp [leaf,hv] at h
  | some value =>
    obtain ⟨l,hl,_⟩ := t.stored key value hv
    exact ⟨value,rfl,by rw [leaf_of_some hv hl,hl]⟩

/-- The tree without any value. -/
def empty : Store Key leafOf zero := ⟨∅,by simp⟩

@[simp] theorem empty_leaf (key : Key) : (empty : Store Key leafOf zero).leaf key=zero := by
  simp [empty,leaf]

theorem ext {t u : Store Key leafOf zero} (h : t.values=u.values) : t=u := by
  cases t
  cases u
  cases h
  rfl

section Update
variable [DecidableEq Leaf]

/-- Writes a value. One with the empty leaf is removed, one without a leaf is refused. -/
def update (t : Store Key leafOf zero) (key : Key) (value : Value) :
    Option (Store Key leafOf zero) :=
  match hl : leafOf value with
  | none => none
  | some l =>
    if hz : l=zero then
      some ⟨t.values.erase key,by
        intro k v hv
        rw [Std.ExtTreeMap.getElem?_erase] at hv
        split_ifs at hv
        exact t.stored k v hv⟩
    else
      some ⟨t.values.insert key value,by
        intro k v hv
        rw [Std.ExtTreeMap.getElem?_insert] at hv
        split_ifs at hv
        · obtain rfl := Option.some.inj hv
          exact ⟨l,hl,hz⟩
        · exact t.stored k v hv⟩

theorem update_eq_some {t fresh : Store Key leafOf zero} {key : Key} {value : Value} :
    t.update key value=some fresh ↔ ∃ l,leafOf value=some l ∧
      fresh.values=if l=zero then t.values.erase key else t.values.insert key value := by
  unfold update
  split
  · rename_i hl
    simp [hl]
  · rename_i l hl
    by_cases hz : l=zero
    · simp only [hz,dif_pos,hl,Option.some.injEq,exists_eq_left',if_true]
      exact ⟨fun h => h ▸ rfl,fun h => ext h.symm⟩
    · simp only [hz,dif_neg,not_false_eq_true,hl,Option.some.injEq,exists_eq_left',if_false]
      exact ⟨fun h => h ▸ rfl,fun h => ext h.symm⟩

theorem exists_update (t : Store Key leafOf zero) (key : Key) (value : Value) :
    (∃ fresh,t.update key value=some fresh) ↔ ∃ l,leafOf value=some l := by
  constructor
  · intro ⟨fresh,h⟩
    obtain ⟨l,hl,_⟩ := update_eq_some.mp h
    exact ⟨l,hl⟩
  · intro ⟨l,hl⟩
    unfold update
    split
    · rename_i hn
      rw [hl] at hn
      cases hn
    · split_ifs
      · exact ⟨_,rfl⟩
      · exact ⟨_,rfl⟩

variable [Std.LawfulEqOrd Key]

theorem getElem?_update_self {t fresh : Store Key leafOf zero} {key : Key} {value : Value}
    {l : Leaf} (h : t.update key value=some fresh) (hl : leafOf value=some l) :
    fresh.values[key]?=if l=zero then none else some value := by
  obtain ⟨m,hm,hv⟩ := update_eq_some.mp h
  obtain rfl : l=m := by simpa [hl] using hm
  rw [hv]
  split_ifs with hz
  · simp
  · simp

theorem getElem?_update_of_ne {t fresh : Store Key leafOf zero} {key other : Key}
    {value : Value} (h : t.update key value=some fresh) (hne : other≠key) :
    fresh.values[other]?=t.values[other]? := by
  obtain ⟨l,_,hv⟩ := update_eq_some.mp h
  have hk : compare key other≠.eq := fun he => hne (Std.LawfulEqOrd.eq_of_compare he).symm
  rw [hv]
  split_ifs with hz
  · rw [Std.ExtTreeMap.getElem?_erase,if_neg hk]
  · rw [Std.ExtTreeMap.getElem?_insert,if_neg hk]

theorem leaf_update [DecidableEq Key] {t fresh : Store Key leafOf zero} {key : Key}
    {value : Value} {l : Leaf} (h : t.update key value=some fresh) (hl : leafOf value=some l) :
    fresh.leaf=Function.update t.leaf key l := by
  funext k
  by_cases hk : k=key
  · subst hk
    rw [Function.update_self,leaf,getElem?_update_self h hl]
    split_ifs with hz
    · exact hz.symm
    · simp [hl]
  · rw [Function.update_of_ne hk,leaf,getElem?_update_of_ne h hk]
    rfl

/-- Writing a stored value again changes nothing. -/
theorem update_stored {t : Store Key leafOf zero} {key : Key} {value : Value}
    (h : t.values[key]?=some value) : t.update key value=some t := by
  obtain ⟨l,hl,hz⟩ := t.stored key value h
  refine update_eq_some.mpr ⟨l,hl,?_⟩
  rw [if_neg hz]
  apply Std.ExtTreeMap.ext_getElem?
  intro k
  rw [Std.ExtTreeMap.getElem?_insert]
  split_ifs with hk
  · rw [← Std.LawfulEqOrd.eq_of_compare hk,h]
  · rfl

/-- Writing an empty value where there is none changes nothing. -/
theorem update_absent {t : Store Key leafOf zero} {key : Key} {value : Value}
    (h : t.values[key]?=none) (hl : leafOf value=some zero) : t.update key value=some t := by
  refine update_eq_some.mpr ⟨zero,hl,?_⟩
  rw [if_pos rfl]
  apply Std.ExtTreeMap.ext_getElem?
  intro k
  rw [Std.ExtTreeMap.getElem?_erase]
  split_ifs with hk
  · rw [← Std.LawfulEqOrd.eq_of_compare hk,h]
  · rfl

end Update

end Store

/-- The proof for the listed keys of a tree gives its root, whatever leaves it has there. -/
def Recovers [DecidableEq Key] (S : Scheme Key Leaf Root Proof)
    (prove : (Key → Leaf) → List Key → Proof) (tree : Key → Leaf) (keys : List Key) : Prop :=
  ∀ leaves,leaves.map Prod.fst=keys →
    S.computeRoot (prove tree keys) leaves=.ok (S.root (setLeaves tree leaves))

theorem Recovers.single [DecidableEq Key] {S : Scheme Key Leaf Root Proof}
    {prove : (Key → Leaf) → List Key → Proof} {tree : Key → Leaf} {key : Key}
    (h : Recovers S prove tree [key]) (leaf : Leaf) :
    S.computeRoot (prove tree [key]) [(key,leaf)]=.ok (S.root (Function.update tree key leaf)) :=
  h [(key,leaf)] rfl

/-- The proof opens the tree at the leaf that it has. -/
theorem Recovers.current [DecidableEq Key] {S : Scheme Key Leaf Root Proof}
    {prove : (Key → Leaf) → List Key → Proof} {tree : Key → Leaf} {key : Key}
    (h : Recovers S prove tree [key]) :
    S.computeRoot (prove tree [key]) [(key,tree key)]=.ok (S.root tree) := by
  rw [h.single,Function.update_eq_self]

/-- Proofs for the trees whose leaves are all empty but that of one key. -/
def oneKey [DecidableEq Key] (key : Key) (rootOf : Leaf → Root) :
    Scheme Key Leaf Root Unit where
  root tree := rootOf (tree key)
  computeRoot _ leaves :=
    match leaves with
    | [(k,leaf)] => if k=key then .ok (rootOf leaf) else .error "CorruptedProof"
    | _ => .error "IncorrectNumberOfLeaves"

theorem oneKey_computeRoot_eq_ok [DecidableEq Key] {key : Key} {rootOf : Leaf → Root}
    {leaves : List (Key × Leaf)} {root : Root}
    (h : (oneKey key rootOf).computeRoot () leaves=.ok root) :
    ∃ leaf,leaves=[(key,leaf)] ∧ rootOf leaf=root := by
  rcases leaves with _ | ⟨⟨k,leaf⟩,_ | ⟨q,rest⟩⟩
  · simp [oneKey] at h
  · by_cases hk : k=key
    · subst hk
      exact ⟨leaf,rfl,by simpa [oneKey] using h⟩
    · simp [oneKey,hk] at h
  · simp [oneKey] at h

theorem oneKey_recovers [DecidableEq Key] (key : Key) (rootOf : Leaf → Root)
    (prove : (Key → Leaf) → List Key → Unit) (tree : Key → Leaf) :
    Recovers (oneKey key rootOf) prove tree [key] := by
  intro leaves hk
  rcases leaves with _ | ⟨⟨k,l⟩,_ | ⟨q,rest⟩⟩
  · simp at hk
  · obtain rfl : k=key := by simpa using hk
    simp [oneKey,setLeaves]
  · simp at hk

theorem oneKey_sound [DecidableEq Key] {key : Key} {rootOf : Leaf → Root} {tree : Key → Leaf}
    (h : ∀ leaf,rootOf leaf=rootOf (tree key) → tree key=leaf) :
    Sound (oneKey key rootOf) () tree where
  opens := by
    intro leaves hc p hp
    obtain ⟨leaf,rfl,hr⟩ := oneKey_computeRoot_eq_ok hc
    obtain rfl : p=(key,leaf) := by simpa using hp
    exact h leaf hr
  recomputes := by
    intro leaves fresh _ hc hk
    obtain ⟨leaf,rfl,_⟩ := oneKey_computeRoot_eq_ok hc
    rcases fresh with _ | ⟨⟨k,v⟩,_ | ⟨q,rest⟩⟩
    · simp at hk
    · obtain rfl : k=key := by simpa using hk
      simp [oneKey,setLeaves]
    · simp at hk

end TruthSeeker.SparseMerkle
