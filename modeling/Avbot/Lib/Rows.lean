import Mathlib.Data.List.Nodup

/-!
# Tables as lists of rows

A table is the list of its rows in the order in which they were inserted. One statement changes the rows that meet a condition, and one deletes them and inserts a new row behind the others.
-/

namespace Rows

open List

variable {ρ κ : Type*} {rows : List ρ} {p q : ρ → Prop} [DecidablePred p] [DecidablePred q] {key : ρ → κ}

def updateWhere (p : ρ → Prop) [DecidablePred p] (set : ρ → ρ) (rows : List ρ) : List ρ :=
  rows.map fun row => if p row then set row else row

def replaceWhere (p : ρ → Prop) [DecidablePred p] (new : ρ) (rows : List ρ) : List ρ :=
  rows.filter (fun row => ¬ p row) ++ [new]

theorem map_updateWhere {set : ρ → ρ} (hset : ∀ row, key (set row) = key row) :
    (updateWhere p set rows).map key = rows.map key := by
  rw [updateWhere, map_map]
  apply map_congr_left
  grind

theorem mem_replaceWhere {new row : ρ} : row ∈ replaceWhere p new rows ↔ (row ∈ rows ∧ ¬ p row) ∨ row = new := by
  grind [replaceWhere]

theorem forall_replaceWhere {kept : ρ → Prop} {new : ρ} (hrows : ∀ row ∈ rows, kept row) (hnew : kept new) :
    ∀ row ∈ replaceWhere p new rows, kept row := by
  intro row hrow
  rcases mem_replaceWhere.mp hrow with ⟨hold, -⟩ | rfl
  · exact hrows row hold
  · exact hnew

theorem forall_updateWhere {kept : ρ → Prop} {set : ρ → ρ} (hrows : ∀ row ∈ rows, kept row)
    (hset : ∀ row, kept row → kept (set row)) : ∀ row ∈ updateWhere p set rows, kept row := by
  intro row hrow
  obtain ⟨old, hold, rfl⟩ := mem_map.mp hrow
  split
  · exact hset old (hrows old hold)
  · exact hrows old hold

theorem nodup_replaceWhere {new : ρ} (hnodup : (rows.map key).Nodup) (hdeleted : ∀ row ∈ rows, key row = key new → p row) :
    ((replaceWhere p new rows).map key).Nodup := by
  rw [replaceWhere, map_append, map_singleton]
  grind

theorem filter_replaceWhere (new : ρ) :
    (replaceWhere p new rows).filter (fun row => q row) =
      rows.filter (fun row => q row ∧ ¬ p row) ++ if q new then [new] else [] := by
  rw [replaceWhere, filter_append, filter_filter]
  grind

theorem filter_eq_singleton [DecidableEq κ] {row : ρ} (hnodup : (rows.map key).Nodup) (hrow : row ∈ rows) :
    rows.filter (fun r => key r = key row) = [row] := by
  induction rows with
  | nil => cases hrow
  | cons first rest ih =>
    obtain ⟨hfirst, hrest⟩ := nodup_cons.mp hnodup
    rcases mem_cons.mp hrow with rfl | hmem
    · have hnone : rest.filter (fun r => key r = key row) = [] := by
        apply filter_eq_nil_iff.mpr
        grind
      rw [filter_cons_of_pos (by simp), hnone]
    · grind

end Rows
