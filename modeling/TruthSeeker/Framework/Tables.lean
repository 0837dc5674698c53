import Mathlib.Data.Finset.Basic
import Mathlib.Data.List.Nodup

namespace TruthSeeker

/-- The rows of a relational table by their key. -/
def Table (κ ρ : Type) := κ → Option ρ

namespace Table

variable {κ ρ : Type} [DecidableEq κ]

def empty : Table κ ρ := fun _ => none

/-- Of the rows with one key the first counts. -/
def ofRows (rows : List (κ × ρ)) : Table κ ρ := fun key =>
  (rows.find? fun row => row.1=key).map Prod.snd

/-- `INSERT … ON CONFLICT DO NOTHING`. -/
def insertIgnoring (rows : List (κ × ρ)) (table : Table κ ρ) : Table κ ρ := fun key =>
  (table key).or (ofRows rows key)

/-- No row has a key that is taken, in the table or by another row. -/
def Fresh (rows : List (κ × ρ)) (table : Table κ ρ) : Prop :=
  (rows.map Prod.fst).Nodup ∧ ∀ row ∈ rows,(table row.1).isNone=true

instance (rows : List (κ × ρ)) (table : Table κ ρ) : Decidable (Fresh rows table) :=
  inferInstanceAs (Decidable (_ ∧ _))

/-- `INSERT`, refused as a whole if a key is taken. -/
def insert (rows : List (κ × ρ)) (table : Table κ ρ) : Option (Table κ ρ) :=
  if Fresh rows table then some (insertIgnoring rows table) else none

/-- `INSERT … ON CONFLICT DO UPDATE` of rows with keys of their own. -/
def upsert (set : ρ → ρ → ρ) (table rows : Table κ ρ) : Table κ ρ := fun key =>
  match rows key with
  | none => table key
  | some row => some ((table key).elim row fun old => set old row)

/-- `UPDATE … SET`, where a row that does not match stays as it is. -/
def update (set : κ → ρ → ρ) (table : Table κ ρ) : Table κ ρ := fun key =>
  (table key).map (set key)

/-- `DELETE`, once for each of the keys. -/
def delete (keys : Finset κ) (table : Table κ ρ) : Table κ ρ := fun key =>
  if key∈keys then none else table key

section Rows
variable {rows more : List (κ × ρ)} {table : Table κ ρ} {key : κ}

theorem ofRows_append : ofRows (rows++more) key=(ofRows rows key).or (ofRows more key) := by
  unfold ofRows
  rw [List.find?_append]
  cases rows.find? fun row => row.1=key <;> rfl

theorem ofRows_eq_none : ofRows rows key=none ↔ key∉rows.map Prod.fst := by
  simp only [ofRows,Option.map_eq_none_iff,List.find?_eq_none,decide_eq_true_eq,List.mem_map,
    not_exists,not_and]

theorem isSome_insertIgnoring : (insertIgnoring rows table key).isSome=true ↔
    (table key).isSome=true ∨ key∈rows.map Prod.fst := by
  have listed : (ofRows rows key).isSome=true ↔ key∈rows.map Prod.fst := by
    rw [Option.isSome_iff_ne_none,ne_eq,ofRows_eq_none,not_not]
  rw [← listed]
  unfold insertIgnoring
  cases table key <;> simp

theorem insertIgnoring_append (rows more : List (κ × ρ)) (table : Table κ ρ) :
    insertIgnoring (rows++more) table=insertIgnoring more (insertIgnoring rows table) := by
  funext key
  unfold insertIgnoring
  rw [ofRows_append,Option.or_assoc]

/-- Rows can be inserted together if the first can be, and then the others. -/
theorem Fresh.append (h : Fresh rows table) (hm : Fresh more (insertIgnoring rows table)) :
    Fresh (rows++more) table := by
  have apart : ∀ row ∈ more,(table row.1).isNone=true ∧ row.1∉rows.map Prod.fst := by
    intro row hr
    have none := hm.2 row hr
    rw [Option.isNone_iff_eq_none,← Option.not_isSome_iff_eq_none,isSome_insertIgnoring] at none
    rw [Option.isNone_iff_eq_none,← Option.not_isSome_iff_eq_none]
    tauto
  constructor
  · rw [List.map_append,List.nodup_append]
    refine ⟨h.1,hm.1,?_⟩
    intro a ha b hb same
    obtain ⟨row,hr,rfl⟩ := List.mem_map.mp hb
    exact (apart row hr).2 (same ▸ ha)
  · intro row hr
    obtain hr|hr := List.mem_append.mp hr
    · exact h.2 row hr
    · exact (apart row hr).1

end Rows

section Updates
omit [DecidableEq κ]
variable {table : Table κ ρ} {key : κ}

theorem isSome_update {set : κ → ρ → ρ} :
    (update set table key).isSome=(table key).isSome := by
  unfold update
  cases table key <;> rfl

theorem isSome_upsert {set : ρ → ρ → ρ} {rows : Table κ ρ} :
    (upsert set table rows key).isSome=true ↔
      (table key).isSome=true ∨ (rows key).isSome=true := by
  unfold upsert
  cases rows key <;> simp

theorem update_update (set next : κ → ρ → ρ) (table : Table κ ρ) :
    update next (update set table)=update (fun key row => next key (set key row)) table := by
  funext key
  unfold update
  rw [Option.map_map]
  rfl

end Updates

/-- An update and an insertion commute if the update leaves the rows alone that are new. -/
theorem update_insertIgnoring {table : Table κ ρ} {set : κ → ρ → ρ} {rows : List (κ × ρ)}
    (h : ∀ key row,table key=none → ofRows rows key=some row → set key row=row) :
    update set (insertIgnoring rows table)=insertIgnoring rows (update set table) := by
  funext key
  simp only [update,insertIgnoring]
  cases ht : table key with
  | some row => rfl
  | none =>
    cases hr : ofRows rows key with
    | none => rfl
    | some row => exact congrArg some (h key row ht hr)

/-- Updates between two insertions can wait until after both. -/
theorem update_insertIgnoring_append {table : Table κ ρ} {set next : κ → ρ → ρ}
    {rows more : List (κ × ρ)}
    (h : ∀ key row,ofRows more key=some row → insertIgnoring rows table key=none →
      set key row=row) :
    update next (insertIgnoring more (update set (insertIgnoring rows table)))=
      update (fun key row => next key (set key row)) (insertIgnoring (rows++more) table) := by
  have commute := update_insertIgnoring fun key row ht hm => h key row hm ht
  rw [← commute,update_update,insertIgnoring_append]

theorem mem_of_ofRows {rows : List (κ × ρ)} {key : κ} {row : ρ} (h : ofRows rows key=some row) :
    key∈rows.map Prod.fst := by
  by_contra absent
  rw [ofRows_eq_none.mpr absent] at h
  cases h

end Table

end TruthSeeker
