import Mathlib.Data.List.Dedup
import Mathlib.Data.List.Perm.Subperm

/-!
# The most recent entries

A buffer of a fixed capacity with an entry for a key. Touching a key takes its entry out and puts a new one at the end; a buffer that is full loses its first entry.
-/

namespace Recent

open List

variable {β κ ν : Type*}

def pushBack (capacity : Nat) (l : List β) (x : β) : List β :=
  if l.length < capacity then l ++ [x] else l.drop 1 ++ [x]

variable [DecidableEq κ]

def touch (capacity : Nat) (l : List (κ × ν)) (k : κ) (v : ν) : List (κ × ν) :=
  pushBack capacity (l.eraseP (·.1 = k)) (k, v)

def last (past : List (κ × ν)) (k : κ) : Option ν := (past.reverse.find? (·.1 = k)).map Prod.snd

variable {capacity : Nat} {past l : List (κ × ν)} {k : κ} {v : ν}

theorem length_dedup_le {l l' : List κ} (hsub : l ⊆ l') : l.dedup.length ≤ l'.dedup.length := by
  refine ((nodup_dedup l).subperm fun k hk => ?_).length_le
  rw [mem_dedup] at hk ⊢
  exact hsub hk

theorem last_append (past : List (κ × ν)) (k k' : κ) (v : ν) :
    last (past ++ [(k, v)]) k' = if k = k' then some v else last past k' := by
  rw [last, reverse_append, reverse_singleton, singleton_append, find?_cons]
  by_cases hk : k = k'
  · rw [if_pos hk, decide_eq_true hk]
    rfl
  · rw [if_neg hk, decide_eq_false hk]
    rfl

theorem mem_of_last (hlast : last past k = some v) : (k, v) ∈ past := by
  obtain ⟨⟨k', v'⟩, hfind, rfl⟩ := Option.map_eq_some_iff.mp hlast
  grind

theorem eraseP_eq_filter (hnodup : (l.map Prod.fst).Nodup) : l.eraseP (·.1 = k) = l.filter (·.1 ≠ k) := by
  induction l with
  | nil => rfl
  | cons e l ih =>
    rw [map_cons, nodup_cons] at hnodup
    by_cases he : e.1 = k
    · have hall : ∀ e' ∈ l, decide (e'.1 ≠ k) = true := by
        grind
      rw [eraseP_cons_of_pos (by simpa using he), filter_cons_of_neg (by simpa using he), filter_eq_self.mpr hall]
    · grind

structure Tracks (past l : List (κ × ν)) : Prop where
  nodup : (l.map Prod.fst).Nodup
  mem_iff : ∀ k v, (k, v) ∈ l ↔ last past k = some v

namespace Tracks

theorem init : Tracks ([] : List (κ × ν)) [] where
  nodup := nodup_nil
  mem_iff k v := by simp [last]

theorem find_eq (htracks : Tracks past l) (k : κ) : (l.find? (·.1 = k)).map Prod.snd = last past k := by
  cases hlast : last past k with
  | none =>
    rw [Option.map_eq_none_iff, find?_eq_none]
    rintro ⟨k', v⟩ hmem hk
    obtain rfl : k' = k := by simpa using hk
    rw [htracks.mem_iff, hlast] at hmem
    cases hmem
  | some v =>
    cases hfind : l.find? (·.1 = k) with
    | none =>
      have hne := find?_eq_none.mp hfind (k, v) ((htracks.mem_iff k v).mpr hlast)
      simp at hne
    | some e =>
      obtain ⟨k', v'⟩ := e
      obtain rfl : k' = k := by simpa using find?_some hfind
      have hv := (htracks.mem_iff k' v').mp (mem_of_find?_eq_some hfind)
      exact hv.symm.trans hlast

theorem touch (htracks : Tracks past l) (hroom : ((past ++ [(k, v)]).map Prod.fst).dedup.length ≤ capacity) :
    Tracks (past ++ [(k, v)]) (touch capacity l k v) := by
  have hnodup : ((l.filter (·.1 ≠ k)).map Prod.fst).Nodup := htracks.nodup.sublist (filter_sublist.map _)
  have hk : k ∉ (l.filter (·.1 ≠ k)).map Prod.fst := by simp
  -- the key and the other keys of the buffer are keys that were touched
  have hkeys : k :: (l.filter (·.1 ≠ k)).map Prod.fst ⊆ ((past ++ [(k, v)]).map Prod.fst).dedup := by
    intro k' hk'
    rw [mem_dedup, map_append, mem_append]
    rcases mem_cons.mp hk' with rfl | hk'
    · exact .inr mem_cons_self
    · obtain ⟨⟨k'', v'⟩, hmem, rfl⟩ := mem_map.mp hk'
      exact .inl (mem_map_of_mem (mem_of_last ((htracks.mem_iff k'' v').mp (mem_of_mem_filter hmem))))
  have hlength := ((nodup_cons.mpr ⟨hk, hnodup⟩).subperm hkeys).length_le
  rw [length_cons, length_map] at hlength
  rw [Recent.touch, eraseP_eq_filter htracks.nodup, pushBack, if_pos (by omega)]
  constructor
  · rw [map_append, nodup_append_comm]
    exact nodup_cons.mpr ⟨hk, hnodup⟩
  · intro k' v'
    rw [last_append, mem_append, mem_filter, htracks.mem_iff, mem_singleton, Prod.mk.injEq, decide_eq_true_iff]
    by_cases hkk : k = k'
    · subst hkk
      simp [eq_comm]
    · simp [hkk, Ne.symm hkk]

end Tracks

end Recent
