import Mathlib.Data.Finset.Card
import Mathlib.Data.List.Nodup
import Mathlib.Data.List.Perm.Subperm
import Mathlib.Logic.Relation

namespace TruthSeeker.ParentWalk

/-- What a walk along parent links comes by: the entries in order, and the key for which it
found none. -/
structure Walk (κ ν : Type) where
  entries : List (κ × ν)
  missing : Option κ
  deriving DecidableEq

variable {κ ν : Type}

/-- The keys of the entries. -/
def Walk.keys (self : Walk κ ν) : List κ := self.entries.map Prod.fst

section Walking
variable (lookup : κ → Option ν) (parent : ν → Option κ) (stop : κ → Prop)

/-- The walk from a key, unless it takes longer than the fuel. -/
def walk [DecidablePred stop] : Nat → κ → Option (Walk κ ν)
  | 0,_ => none
  | fuel+1,k =>
      if stop k then some ⟨[],none⟩ else
      match lookup k with
      | none => some ⟨[],some k⟩
      | some v =>
          match parent v with
          | none => some ⟨[(k,v)],none⟩
          | some p => (walk fuel p).map fun w => ⟨(k,v)::w.entries,w.missing⟩

/-- The walk from a key, however long it takes. -/
inductive Walks : κ → Walk κ ν → Prop
  | stopped {k : κ} (hs : stop k) : Walks k ⟨[],none⟩
  | missing {k : κ} (hs : ¬stop k) (hl : lookup k=none) : Walks k ⟨[],some k⟩
  | root {k : κ} {v : ν} (hs : ¬stop k) (hl : lookup k=some v) (hp : parent v=none) :
      Walks k ⟨[(k,v)],none⟩
  | link {k p : κ} {v : ν} {w : Walk κ ν} (hs : ¬stop k) (hl : lookup k=some v)
      (hp : parent v=some p) (hw : Walks p w) : Walks k ⟨(k,v)::w.entries,w.missing⟩

variable {lookup parent stop}

theorem walks_of_walk [DecidablePred stop] {fuel : Nat} {k : κ} {w : Walk κ ν}
    (h : walk lookup parent stop fuel k=some w) : Walks lookup parent stop k w := by
  induction fuel generalizing k w with
  | zero => simp [walk] at h
  | succ fuel ih =>
    unfold walk at h
    by_cases hs : stop k
    · rw [if_pos hs] at h
      obtain rfl := Option.some.inj h
      exact .stopped hs
    · rw [if_neg hs] at h
      cases hl : lookup k with
      | none =>
        simp only [hl] at h
        obtain rfl := Option.some.inj h
        exact .missing hs hl
      | some v =>
        simp only [hl] at h
        cases hp : parent v with
        | none =>
          simp only [hp] at h
          obtain rfl := Option.some.inj h
          exact .root hs hl hp
        | some p =>
          simp only [hp] at h
          obtain ⟨tail,ht,rfl⟩ := Option.map_eq_some_iff.mp h
          exact .link hs hl hp (ih ht)

/-- One step for each entry, and one to see that the walk is over. -/
theorem Walks.walk_eq [DecidablePred stop] {k : κ} {w : Walk κ ν}
    (h : Walks lookup parent stop k w) {fuel : Nat} (hf : w.entries.length<fuel) : walk lookup parent stop fuel k=some w := by
  induction h generalizing fuel with
  | stopped hs =>
    cases fuel with
    | zero => simp at hf
    | succ fuel => rw [walk,if_pos hs]
  | missing hs hl =>
    cases fuel with
    | zero => simp at hf
    | succ fuel => rw [walk,if_neg hs,hl]
  | root hs hl hp =>
    cases fuel with
    | zero => simp at hf
    | succ fuel => simp [walk,if_neg hs,hl,hp]
  | link hs hl hp hw ih =>
    cases fuel with
    | zero => simp at hf
    | succ fuel =>
      have tail := ih (Nat.lt_of_succ_lt_succ hf)
      simp [walk,if_neg hs,hl,hp,tail]

/-- Fuels that suffice for every walk that ends lead to the same walk. -/
theorem walk_eq_walk [DecidablePred stop] {k : κ} {m n : Nat}
    (hm : ∀ w,Walks lookup parent stop k w → w.entries.length < m)
    (hn : ∀ w,Walks lookup parent stop k w → w.entries.length < n) :
    walk lookup parent stop m k=walk lookup parent stop n k := by
  cases h : walk lookup parent stop m k with
  | some w =>
    have hw := walks_of_walk h
    exact (hw.walk_eq (hn w hw)).symm
  | none =>
    cases h' : walk lookup parent stop n k with
    | none => rfl
    | some w =>
      have hw := walks_of_walk h'
      rw [hw.walk_eq (hm w hw)] at h
      cases h

theorem Walks.unique {k : κ} {w w' : Walk κ ν} (h : Walks lookup parent stop k w)
    (h' : Walks lookup parent stop k w') : w=w' := by
  classical
  have left := h.walk_eq (Nat.lt_succ_of_le (Nat.le_add_right _ w'.entries.length))
  have right := h'.walk_eq (Nat.lt_succ_of_le (Nat.le_add_left _ w.entries.length))
  exact Option.some.inj (left.symm.trans right)

theorem Walks.lookup_of_mem {k : κ} {w : Walk κ ν} (h : Walks lookup parent stop k w) :
    ∀ entry ∈ w.entries,lookup entry.1=some entry.2 ∧ ¬stop entry.1 := by
  induction h with
  | stopped hs => simp
  | missing hs hl => simp
  | root hs hl hp => simp [hl,hs]
  | link hs hl hp hw ih =>
    intro entry he
    obtain rfl|he := List.mem_cons.mp he
    · exact ⟨hl,hs⟩
    · exact ih entry he

theorem Walks.of_missing {k k' : κ} {w : Walk κ ν} (h : Walks lookup parent stop k w)
    (hm : w.missing=some k') : lookup k'=none ∧ ¬stop k' := by
  induction h with
  | stopped => simp at hm
  | missing hs hl =>
    obtain rfl := Option.some.inj hm
    exact ⟨hl,hs⟩
  | root => simp at hm
  | link hs hl hp hw ih => exact ih hm

/-- From each key that a walk meets, the rest of it is the walk from there. -/
theorem Walks.suffix_of_mem {k : κ} {w : Walk κ ν} (h : Walks lookup parent stop k w) :
    ∀ k' ∈ w.keys,∃ w',Walks lookup parent stop k' w' ∧ w'.entries <:+ w.entries := by
  induction h with
  | stopped hs => simp [Walk.keys]
  | missing hs hl => simp [Walk.keys]
  | root hs hl hp =>
    intro k' hk
    obtain rfl := List.mem_singleton.mp hk
    exact ⟨_,.root hs hl hp,List.suffix_rfl⟩
  | link hs hl hp hw ih =>
    intro k' hk
    obtain rfl|hk := List.mem_cons.mp hk
    · exact ⟨_,.link hs hl hp hw,List.suffix_rfl⟩
    · obtain ⟨w',hw',suffix⟩ := ih k' hk
      exact ⟨w',hw',suffix.trans (List.suffix_cons _ _)⟩

/-- A walk that ends meets no key twice. -/
theorem Walks.nodup {k : κ} {w : Walk κ ν} (h : Walks lookup parent stop k w) :
    w.keys.Nodup := by
  induction h with
  | stopped hs => simp [Walk.keys]
  | missing hs hl => simp [Walk.keys]
  | root hs hl hp => simp [Walk.keys]
  | @link k p v w hs hl hp hw ih =>
    refine List.nodup_cons.mpr ⟨?_,ih⟩
    intro again
    -- Met again, the key would start the same walk within its own tail.
    obtain ⟨w',hw',suffix⟩ := hw.suffix_of_mem k again
    obtain rfl := (Walks.link hs hl hp hw).unique hw'
    have short := suffix.length_le
    simp only [List.length_cons] at short
    omega

/-- A walk that ends is no longer than there are entries. -/
theorem Walks.length_le {μ : Type} {k : κ} {w : Walk κ ν} {stored : List μ} {f : κ → μ}
    (h : Walks lookup parent stop k w) (hf : Function.Injective f)
    (hs : ∀ k v,lookup k=some v → f k∈stored) : w.entries.length≤ stored.length := by
  have sub : w.keys.map f⊆stored := by
    intro x hx
    obtain ⟨k',hk,rfl⟩ := List.mem_map.mp hx
    obtain ⟨entry,he,rfl⟩ := List.mem_map.mp hk
    exact hs _ _ (h.lookup_of_mem entry he).1
  have distinct : (w.keys.map f).Nodup := h.nodup.map hf
  have short := (distinct.subperm sub).length_le
  rwa [List.length_map,Walk.keys,List.length_map] at short

/-- A walk down a decreasing measure ends. -/
theorem exists_walks (μ : κ → Nat)
    (hμ : ∀ k v p v',lookup k=some v → parent v=some p → lookup p=some v' → μ p<μ k) (k : κ) :
    ∃ w,Walks lookup parent stop k w := by
  induction hm : μ k using Nat.strongRecOn generalizing k with
  | ind m ih =>
    by_cases hs : stop k
    · exact ⟨_,.stopped hs⟩
    · cases hl : lookup k with
      | none => exact ⟨_,.missing hs hl⟩
      | some v =>
        cases hp : parent v with
        | none => exact ⟨_,.root hs hl hp⟩
        | some p =>
          have tail : ∃ w,Walks lookup parent stop p w := by
            by_cases hsp : stop p
            · exact ⟨_,.stopped hsp⟩
            · cases hlp : lookup p with
              | none => exact ⟨_,.missing hsp hlp⟩
              | some v' =>
                have less := hμ k v p v' hl hp hlp
                exact ih (μ p) (by omega) p rfl
          obtain ⟨w,hw⟩ := tail
          exact ⟨_,.link hs hl hp hw⟩

section Links
variable (lookup parent) in
/-- One key links to the next if its entry has that one as its parent. -/
def Link (k p : κ) : Prop := ∃ v,lookup k=some v ∧ parent v=some p

/-- Over finitely many entries without a cycle, each walk ends. -/
theorem exists_walks_of_acyclic [DecidableEq κ] {stored : Finset κ}
    (hs : ∀ k v,lookup k=some v → k∈stored)
    (acyclic : ∀ k,¬Relation.TransGen (Link lookup parent) k k) (k : κ) :
    ∃ w,Walks lookup parent stop k w := by
  classical
  -- The entries that lie ahead become fewer with each link.
  let ahead (k : κ) : Finset κ := stored.filter (Relation.TransGen (Link lookup parent) k)
  refine exists_walks (fun k => (ahead k).card) ?_ k
  intro k v p v' hl hp hl'
  have link : Link lookup parent k p := ⟨v,hl,hp⟩
  refine Finset.card_lt_card ⟨?_,?_⟩
  · intro q hq
    obtain ⟨known,path⟩ := Finset.mem_filter.mp hq
    exact Finset.mem_filter.mpr ⟨known,.head link path⟩
  · intro sub
    have here : p∈ahead k := Finset.mem_filter.mpr ⟨hs p v' hl',.single link⟩
    exact acyclic p (Finset.mem_filter.mp (sub here)).2

/-- Only where a walk leads does it matter where walks stop. -/
theorem Walks.of_stop_iff {stop' : κ → Prop} {k : κ} {w : Walk κ ν}
    (h : Walks lookup parent stop k w)
    (hs : ∀ k',Relation.ReflTransGen (Link lookup parent) k k' → (stop k' ↔ stop' k')) :
    Walks lookup parent stop' k w := by
  induction h with
  | @stopped k hk => exact .stopped ((hs k .refl).mp hk)
  | @missing k hk hl => exact .missing (fun h => hk ((hs k .refl).mpr h)) hl
  | @root k v hk hl hp => exact .root (fun h => hk ((hs k .refl).mpr h)) hl hp
  | @link k p v w hk hl hp hw ih =>
    have tail := ih fun k' path => hs k' (.head ⟨v,hl,hp⟩ path)
    exact .link (fun h => hk ((hs k .refl).mpr h)) hl hp tail

/-- A walk that leads to a key without an entry ends there, or stops. -/
theorem Walks.missing_of_reaches {k k' : κ} {w : Walk κ ν} (h : Walks lookup parent stop k w)
    (path : Relation.ReflTransGen (Link lookup parent) k k') (hl : lookup k'=none) :
    w.missing=none ∨ w.missing=some k' ∧ ¬stop k' := by
  induction path using Relation.ReflTransGen.head_induction_on generalizing w with
  | refl =>
    cases h with
    | stopped hs => exact Or.inl rfl
    | missing hs => exact Or.inr ⟨rfl,hs⟩
    | root => exact Or.inl rfl
    | link hs hl' =>
      rw [hl] at hl'
      cases hl'
  | head first path ih =>
    obtain ⟨v,hv,hp⟩ := first
    cases h with
    | stopped hs => exact Or.inl rfl
    | missing hs hl' =>
      rw [hv] at hl'
      cases hl'
    | root => exact Or.inl rfl
    | link hs hl' hp' hw =>
      obtain rfl := Option.some.inj (hv.symm.trans hl')
      obtain rfl := Option.some.inj (hp.symm.trans hp')
      have rest := ih hw
      exact rest

/-- Without a beginning and without a stop, a walk ends where an entry is missing. -/
theorem Walks.missing_ne_none {k : κ} {w : Walk κ ν} (h : Walks lookup parent stop k w)
    (hs : ∀ k,¬stop k) (hp : ∀ v,parent v≠none) : w.missing≠none := by
  induction h with
  | stopped hk => exact absurd hk (hs _)
  | missing => simp
  | root hk hl hr => exact absurd hr (hp _)
  | link hk hl hr hw ih => exact ih

end Links

end Walking

section Fallible
variable {ε : Type} (lookup : κ → Except ε (Option ν)) (parent : ν → Option κ) (stop : κ → Prop)

/-- The walk over lookups that may fail: a failure is what the walk comes to. -/
def walkM [DecidablePred stop] : Nat → κ → Option (Except ε (Walk κ ν))
  | 0,_ => none
  | fuel+1,k =>
      if stop k then some (.ok ⟨[],none⟩) else
      match lookup k with
      | .error e => some (.error e)
      | .ok none => some (.ok ⟨[],some k⟩)
      | .ok (some v) =>
          match parent v with
          | none => some (.ok ⟨[(k,v)],none⟩)
          | some p => (walkM fuel p).map (Except.map fun w => ⟨(k,v)::w.entries,w.missing⟩)

variable {lookup parent stop}

/-- Lookups that never fail make the walk of what they find. -/
theorem walkM_eq_walk [DecidablePred stop] {found : κ → Option ν}
    (h : ∀ k,lookup k=.ok (found k)) (fuel : Nat) (k : κ) :
    walkM lookup parent stop fuel k=(walk found parent stop fuel k).map .ok := by
  induction fuel generalizing k with
  | zero => rfl
  | succ fuel ih =>
    unfold walkM walk
    by_cases hs : stop k
    · rw [if_pos hs,if_pos hs]
      rfl
    · rw [if_neg hs,if_neg hs,h]
      cases found k with
      | none => rfl
      | some v =>
        cases hp : parent v with
        | none => simp [hp]
        | some p =>
          simp only [hp,ih p,Option.map_map]
          rfl

/-- Lookups that always fail end the walk where it starts, unless it stops there. -/
theorem walkM_of_error [DecidablePred stop] {e : ε} (h : ∀ k,lookup k=.error e) (fuel : Nat)
    (k : κ) : walkM lookup parent stop (fuel+1) k=
      some (if stop k then .ok ⟨[],none⟩ else .error e) := by
  unfold walkM
  by_cases hs : stop k
  · rw [if_pos hs,if_pos hs]
  · rw [if_neg hs,if_neg hs,h]

end Fallible

/-- Two walks that lack nothing and read the same parents meet the same keys. -/
theorem Walks.keys_eq {lookup lookup' : κ → Option ν} {parent : ν → Option κ} {stop : κ → Prop}
    {k : κ} {w w' : Walk κ ν} (h : Walks lookup parent stop k w)
    (h' : Walks lookup' parent stop k w') (hm : w.missing=none) (hm' : w'.missing=none)
    (hp : ∀ k v v',lookup k=some v → lookup' k=some v' → parent v=parent v') :
    w.entries.map (fun e => (e.1,parent e.2))=w'.entries.map fun e => (e.1,parent e.2) := by
  induction h generalizing w' with
  | stopped hs =>
    cases h' with
    | stopped => rfl
    | missing hs' => exact absurd hs hs'
    | root hs' => exact absurd hs hs'
    | link hs' => exact absurd hs hs'
  | missing => simp at hm
  | root hs hl hr =>
    cases h' with
    | stopped hs' => exact absurd hs' hs
    | missing => simp at hm'
    | root hs' hl' hr' => simp [hr,hr']
    | link hs' hl' hr' => simp [hp _ _ _ hl hl',hr'] at hr
  | link hs hl hr hw ih =>
    cases h' with
    | stopped hs' => exact absurd hs' hs
    | missing => simp at hm'
    | root hs' hl' hr' => simp [hp _ _ _ hl hl',hr'] at hr
    | link hs' hl' hr' hw' =>
      have same := hp _ _ _ hl hl'
      obtain rfl : _=_ := Option.some.inj ((hr.symm.trans same).trans hr')
      simp [same,ih hw' hm hm']

section Finds
variable (lookup : κ → Option ν) (parent : ν → Option κ) (found : κ → ν → Prop)

/-- The first entry from a key down that is sought. -/
inductive Finds : κ → κ → ν → Prop
  | here {k : κ} {v : ν} (hl : lookup k=some v) (hf : found k v) : Finds k k v
  | above {k p k' : κ} {v v' : ν} (hl : lookup k=some v) (hf : ¬found k v)
      (hp : parent v=some p) (h : Finds p k' v') : Finds k k' v'

variable {lookup parent found} {k k' : κ} {v v' : ν}

theorem Finds.holds (h : Finds lookup parent found k k' v) :
    lookup k'=some v ∧ found k' v := by
  induction h with
  | here hl hf => exact ⟨hl,hf⟩
  | above hl hf hp h ih => exact ih

theorem finds_here (hl : lookup k=some v) (hf : found k v) :
    Finds lookup parent found k k' v' ↔ k'=k ∧ v'=v := by
  constructor
  · intro h
    cases h with
    | here hl' =>
      rw [hl] at hl'
      exact ⟨rfl,(Option.some.inj hl').symm⟩
    | above hl' hf' =>
      rw [hl] at hl'
      obtain rfl := Option.some.inj hl'
      exact absurd hf hf'
  · rintro ⟨rfl,rfl⟩
    exact .here hl hf

theorem finds_above {p : κ} (hl : lookup k=some v) (hf : ¬found k v) (hp : parent v=some p) :
    Finds lookup parent found k k' v' ↔ Finds lookup parent found p k' v' := by
  constructor
  · intro h
    cases h with
    | here hl' hf' =>
      rw [hl] at hl'
      obtain rfl := Option.some.inj hl'
      exact absurd hf' hf
    | above hl' _ hp' h =>
      rw [hl] at hl'
      obtain rfl := Option.some.inj hl'
      rw [hp] at hp'
      obtain rfl := Option.some.inj hp'
      exact h
  · exact .above hl hf hp

theorem not_finds_missing (hl : lookup k=none) : ¬Finds lookup parent found k k' v' := by
  intro h
  cases h with
  | here hl' => simp [hl] at hl'
  | above hl' => simp [hl] at hl'

theorem not_finds_root (hl : lookup k=some v) (hf : ¬found k v) (hp : parent v=none) :
    ¬Finds lookup parent found k k' v' := by
  intro h
  cases h with
  | here hl' hf' =>
    rw [hl] at hl'
    obtain rfl := Option.some.inj hl'
    exact hf hf'
  | above hl' _ hp' =>
    rw [hl] at hl'
    obtain rfl := Option.some.inj hl'
    simp [hp] at hp'

end Finds

end TruthSeeker.ParentWalk
