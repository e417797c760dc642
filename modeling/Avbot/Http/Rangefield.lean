import Avbot.Lib.EventMachine
import Mathlib.Data.Int.ConditionallyCompleteOrder
import Mathlib.Data.List.Basic
import Mathlib.Data.Set.Lattice
import Mathlib.Order.CompletePartialOrder
import Mathlib.Order.ConditionallyCompleteLattice.Indexed
import Mathlib.Order.Interval.Set.Basic

/-!
# The map of downloaded ranges

A `rangefield` records which bytes of a file have arrived, as a map from left to right bounds of half open intervals. Adding a range postpones all tidying: `merge` joins overlapping and touching ranges before the next question is answered. What the component is for is the set of bytes in its ranges, `covered`.
-/

namespace Avbot

open List Set

namespace Http

abbrev RangeMap := Std.ExtTreeMap Int Int

def RangeMap.covered (m : RangeMap) : Set Int :=
  { x | ∃ left right, m[left]? = some right ∧ x ∈ Set.Ico left right }

structure Rangefield where
  mNeedMerge : Bool
  mSize : Int
  mRanges : RangeMap

namespace Rangefield

def new (size : Int) : Rangefield where
  mNeedMerge := false
  mSize := size
  mRanges := ∅

/-- The arguments that `update` accepts. -/
def Accepts (size left right : Int) : Prop := ¬ ((left < 0 ∨ right > size) ∨ right ≤ left)

instance (size left right : Int) : Decidable (Accepts size left right) :=
  inferInstanceAs (Decidable (¬ _))

def update (f : Rangefield) (left right : Int) : Rangefield × Bool :=
  if Accepts f.mSize left right then
    ({ f with mRanges := f.mRanges.insert left right, mNeedMerge := true }, true)
  else (f, false)

/-- The two variables of the loop of `merge`: what is already in `result`, and the range that is still growing. -/
structure Merging where
  result : RangeMap
  maxValue : Int × Int

def mergeStep (s : Merging) (i : Int × Int) : Merging :=
  if i.1 ≥ s.maxValue.1 ∧ i.2 ≤ s.maxValue.2 then s
  else if i.1 ≤ s.maxValue.1 ∧ (i.2 ≥ s.maxValue.1 ∧ i.2 ≤ s.maxValue.2) then
    { s with maxValue := (i.1, s.maxValue.2) }
  else if i.1 > s.maxValue.1 ∧ i.1 ≤ s.maxValue.2 then
    { s with maxValue := (s.maxValue.1, i.2) }
  else if i.1 > s.maxValue.2 ∨ (s.maxValue.1 = 0 ∧ s.maxValue.2 = 0) then
    { result :=
        if s.maxValue.1 ≠ 0 ∨ s.maxValue.2 ≠ 0 then
          s.result.insertIfNew s.maxValue.1 s.maxValue.2
        else s.result
      maxValue := i }
  else s

def mergeLoop (ranges : List (Int × Int)) : Merging :=
  ranges.foldl mergeStep { result := ∅, maxValue := (0, 0) }

def Merging.finish (s : Merging) : RangeMap := s.result.insertIfNew s.maxValue.1 s.maxValue.2

def merge (f : Rangefield) : Rangefield :=
  { f with mRanges := (mergeLoop f.mRanges.toList).finish, mNeedMerge := false }

def tidy (f : Rangefield) : Rangefield := if f.mNeedMerge then f.merge else f

def checkRange (f : Rangefield) (left right : Int) : Bool :=
  f.tidy.mRanges.toList.any fun i => decide (left ≥ i.1) && decide (right ≤ i.2)

/-- The loop of `get_range`: it answers the right bound it found, `left` never changes. -/
def getRangeLoop (left right : Int) : List (Int × Int) → Option Int
  | [] => none
  | i :: rest =>
    if left ≥ i.1 then
      if right ≤ i.2 then some right
      else if right > i.1 ∧ i.2 > left then some i.2
      else getRangeLoop left right rest
    else getRangeLoop left right rest

def getRange (f : Rangefield) (left right : Int) : Option Int :=
  getRangeLoop left right f.tidy.mRanges.toList

def isFull (f : Rangefield) : Bool :=
  match f.tidy.mRanges.toList with
  | [i] => decide (i.1 = 0 ∧ i.2 = f.mSize)
  | _ => false

/-- The calls on a field: adding a range, and the questions, which the field answers after tidying itself. -/
inductive Call where
  | update (left right : Int)
  | checkRange (left right : Int)
  | getRange (left right : Int)
  | isFull

def call (f : Rangefield) : Call → Rangefield
  | .update left right => (f.update left right).1
  | .checkRange _ _ | .getRange _ _ | .isFull => f.tidy

def covered (f : Rangefield) : Set Int := f.mRanges.covered

end Rangefield

namespace RangeMap

theorem covered_empty : covered ∅ = ∅ := by
  ext x
  simp [covered]

/-- The ranges of a map other than the one at `left`. -/
def coveredBut (m : RangeMap) (left : Int) : Set Int :=
  { x | ∃ l r, l ≠ left ∧ m[l]? = some r ∧ x ∈ Set.Ico l r }

variable (m : RangeMap) (left : Int)

theorem covered_insert (right : Int) : covered (m.insert left right) = m.coveredBut left ∪ Set.Ico left right := by
  ext x
  constructor
  · rintro ⟨l, r, hget, hx⟩
    rw [Std.ExtTreeMap.getElem?_insert] at hget
    by_cases hl : left = l
    · subst hl
      simp only [Std.compare_self, if_true, Option.some.injEq] at hget
      exact .inr (hget ▸ hx)
    · rw [if_neg (by simpa using hl)] at hget
      exact .inl ⟨l, r, Ne.symm hl, hget, hx⟩
  · rintro (⟨l, r, hl, hget, hx⟩ | hx)
    · refine ⟨l, r, ?_, hx⟩
      rw [Std.ExtTreeMap.getElem?_insert, if_neg (by simpa using Ne.symm hl), hget]
    · exact ⟨left, right, Std.ExtTreeMap.getElem?_insert_self, hx⟩

theorem coveredBut_subset : m.coveredBut left ⊆ m.covered := by
  rintro x ⟨l, r, -, hget, hx⟩
  exact ⟨l, r, hget, hx⟩

theorem coveredBut_of_fresh {m : RangeMap} {left : Int} (hfresh : m[left]? = none) : m.coveredBut left = m.covered := by
  apply Set.Subset.antisymm (m.coveredBut_subset left)
  rintro x ⟨l, r, hget, hx⟩
  exact ⟨l, r, fun heq => by simp [heq, hfresh] at hget, hget, hx⟩

theorem mem_covered_iff (x : Int) :
    x ∈ m.covered ↔ x ∈ m.coveredBut left ∨ ∃ r, m[left]? = some r ∧ x ∈ Set.Ico left r := by
  constructor
  · rintro ⟨l, r, hget, hx⟩
    by_cases hl : l = left
    · exact .inr ⟨r, hl ▸ hget, hl ▸ hx⟩
    · exact .inl ⟨l, r, hl, hget, hx⟩
  · rintro (hx | ⟨r, hget, hx⟩)
    · exact m.coveredBut_subset left hx
    · exact ⟨left, r, hget, hx⟩

theorem covered_insertIfNew {m : RangeMap} {left right : Int} (hnew : m[left]? = none) :
    covered (m.insertIfNew left right) = m.covered ∪ Set.Ico left right := by
  have hmem : ¬ left ∈ m := by
    rw [Std.ExtTreeMap.mem_iff_isSome_getElem?, hnew]
    simp
  ext x
  constructor
  · rintro ⟨l, r, hget, hx⟩
    rw [Std.ExtTreeMap.getElem?_insertIfNew] at hget
    by_cases hl : left = l
    · subst hl
      simp only [Std.compare_self, hmem, not_false_eq_true, and_self, if_true, Option.some.injEq] at hget
      exact .inr (hget ▸ hx)
    · rw [if_neg (by simp [hl])] at hget
      exact .inl ⟨l, r, hget, hx⟩
  · rintro (⟨l, r, hget, hx⟩ | hx)
    · have hl : left ≠ l := by
        rintro rfl
        simp [hnew] at hget
      refine ⟨l, r, ?_, hx⟩
      rw [Std.ExtTreeMap.getElem?_insertIfNew, if_neg (by simp [hl]), hget]
    · refine ⟨left, right, ?_, hx⟩
      rw [Std.ExtTreeMap.getElem?_insertIfNew, if_pos ⟨by simp, hmem⟩]

theorem mem_toList_iff {m : RangeMap} {left right : Int} : (left, right) ∈ m.toList ↔ m[left]? = some right :=
  Std.ExtTreeMap.mem_toList_iff_getElem?_eq_some

theorem mem_covered_iff_toList (x : Int) : x ∈ m.covered ↔ ∃ i ∈ m.toList, x ∈ Set.Ico i.1 i.2 := by
  simp only [Prod.exists, mem_toList_iff]
  rfl

instance (m : RangeMap) (x : Int) : Decidable (x ∈ m.covered) :=
  decidable_of_iff (∃ i ∈ m.toList, i.1 ≤ x ∧ x < i.2) (m.mem_covered_iff_toList x).symm

theorem toList_sorted : m.toList.Pairwise fun i j => i.1 < j.1 :=
  Std.ExtTreeMap.ordered_keys_toList.imp fun h => Int.compare_eq_lt.mp h

end RangeMap

namespace Rangefield

instance (f : Rangefield) (x : Int) : Decidable (x ∈ f.covered) := inferInstanceAs (Decidable (x ∈ f.mRanges.covered))

theorem mSize_tidy (f : Rangefield) : f.tidy.mSize = f.mSize := by
  unfold tidy
  split <;> rfl

theorem mSize_update (f : Rangefield) (left right : Int) : (f.update left right).1.mSize = f.mSize := by
  unfold update
  split <;> rfl

def Merging.covered (s : Merging) : Set Int :=
  s.result.covered ∪ Set.Ico s.maxValue.1 s.maxValue.2

/-- The growing range is still the empty one of the start, or it lies right of all finished ranges and left of all ranges to come. -/
def Merging.Ready (s : Merging) (rest : List (Int × Int)) : Prop :=
  (s.maxValue = (0, 0) ∧ s.result = ∅) ∨
    ((∀ l r, s.result[l]? = some r → l < s.maxValue.1) ∧ ∀ i ∈ rest, s.maxValue.1 < i.1)

variable {s : Merging} {rest : List (Int × Int)} {i : Int × Int} {f : Rangefield}
    {left right : Int}

theorem Merging.Ready.fresh (h : s.Ready rest) : s.result[s.maxValue.1]? = none := by
  rcases h with ⟨-, hresult⟩ | ⟨hleft, -⟩
  · simp [hresult]
  · cases hget : s.result[s.maxValue.1]? with
    | none => rfl
    | some r => exact absurd (hleft _ _ hget) (lt_irrefl _)

theorem Merging.covered_finish (h : s.Ready rest) : s.finish.covered = s.covered :=
  RangeMap.covered_insertIfNew h.fresh

section

variable (h : s.Ready (i :: rest))

include h

theorem Merging.Ready.tail : s.Ready rest :=
  h.imp_right fun ⟨hleft, hright⟩ => ⟨hleft, fun j hj => hright j (mem_cons_of_mem _ hj)⟩

theorem Merging.Ready.lt (hkept : s.maxValue ≠ (0, 0)) : s.maxValue.1 < i.1 := by
  rcases h with ⟨hmax, -⟩ | ⟨-, hright⟩
  · exact absurd hmax hkept
  · exact hright i mem_cons_self

theorem Merging.Ready.begin (hsorted : ∀ j ∈ rest, i.1 < j.1)
    (right : Int) : Merging.Ready ⟨s.result, (i.1, right)⟩ rest := by
  rcases h with ⟨-, hresult⟩ | ⟨hleft, hright⟩
  · exact .inr ⟨by simp [hresult], hsorted⟩
  · exact .inr ⟨fun k v hget => (hleft k v hget).trans (hright i mem_cons_self), hsorted⟩

theorem Merging.Ready.push (hkept : s.maxValue ≠ (0, 0))
    (hsorted : ∀ j ∈ rest, i.1 < j.1) : Merging.Ready ⟨s.finish, i⟩ rest := by
  have hlt := h.lt hkept
  refine .inr ⟨fun k v hget => ?_, hsorted⟩
  rw [finish, Std.ExtTreeMap.getElem?_insertIfNew] at hget
  by_cases hk : s.maxValue.1 = k
  · exact hk ▸ hlt
  · rw [if_neg (by simp [hk])] at hget
    rcases h with ⟨hmax, -⟩ | ⟨hleft, -⟩
    · exact absurd hmax hkept
    · exact (hleft k v hget).trans hlt

end

theorem mergeStep_spec (hready : s.Ready (i :: rest)) (hsorted : ∀ j ∈ rest, i.1 < j.1) :
    (mergeStep s i).Ready rest ∧ (mergeStep s i).covered = s.covered ∪ Set.Ico i.1 i.2 := by
  obtain ⟨result, a, b⟩ := s
  obtain ⟨l, r⟩ := i
  have hmax : a ≠ 0 ∨ b ≠ 0 → (a, b) ≠ (0, 0) := by
    intro hkept heq
    cases heq
    omega
  have hlt : a ≠ 0 ∨ b ≠ 0 → a < l := fun hkept => hready.lt (hmax hkept)
  unfold mergeStep
  by_cases hinside : l ≥ a ∧ r ≤ b
  · rw [if_pos hinside]
    refine ⟨hready.tail, ?_⟩
    symm
    apply Set.union_eq_left.mpr
    exact subset_union_of_subset_right (Set.Ico_subset_Ico hinside.1 hinside.2) _
  rw [if_neg hinside]
  by_cases hhead : l ≤ a ∧ (r ≥ a ∧ r ≤ b)
  · rw [if_pos hhead]
    obtain ⟨rfl, rfl⟩ : a = 0 ∧ b = 0 := by omega
    obtain rfl : r = 0 := by omega
    refine ⟨hready.begin hsorted 0, ?_⟩
    simp only [Merging.covered]
    rw [Set.Ico_self, union_empty]
  rw [if_neg hhead]
  by_cases hgrow : l > a ∧ l ≤ b
  · rw [if_pos hgrow]
    have hjoin : Set.Ico a b ∪ Set.Ico l r = Set.Ico a r := by
      ext x
      simp only [mem_union, mem_Ico]
      omega
    constructor
    · rcases hready.tail with ⟨hmax, -⟩ | hnext
      · cases hmax
        omega
      · exact .inr hnext
    · simp only [Merging.covered]
      rw [union_assoc, hjoin]
  rw [if_neg hgrow]
  have hnext : l > b ∨ (a = 0 ∧ b = 0) := by omega
  rw [if_pos hnext]
  by_cases hkept : a ≠ 0 ∨ b ≠ 0
  · rw [if_pos hkept]
    exact ⟨hready.push (hmax hkept) hsorted, congrArg (· ∪ Set.Ico l r) (Merging.covered_finish hready)⟩
  · rw [if_neg hkept]
    obtain ⟨rfl, rfl⟩ : a = 0 ∧ b = 0 := by omega
    exact ⟨hready.begin hsorted r, by simp [Merging.covered]⟩

theorem foldl_mergeStep_spec (hready : s.Ready rest) (hsorted : rest.Pairwise fun i j => i.1 < j.1) :
    (rest.foldl mergeStep s).finish.covered =
      s.covered ∪ { x | ∃ i ∈ rest, x ∈ Set.Ico i.1 i.2 } := by
  induction rest generalizing s with
  | nil => simp [Merging.covered_finish hready]
  | cons i rest ih =>
    obtain ⟨hi, hrest⟩ := pairwise_cons.mp hsorted
    obtain ⟨hready', hcovered⟩ := mergeStep_spec hready hi
    rw [foldl_cons, ih hready' hrest, hcovered]
    ext x
    simp [or_assoc]

theorem covered_merge (f : Rangefield) : f.merge.covered = f.covered := by
  have hready : Merging.Ready { result := ∅, maxValue := (0, 0) } f.mRanges.toList :=
    .inl ⟨rfl, rfl⟩
  ext x
  rw [covered, merge, mergeLoop, foldl_mergeStep_spec hready f.mRanges.toList_sorted]
  simp [Merging.covered, RangeMap.covered_empty, covered, RangeMap.mem_covered_iff_toList]

theorem covered_tidy (f : Rangefield) : f.tidy.covered = f.covered := by
  unfold tidy
  split
  · exact f.covered_merge
  · rfl

/-- The range stored under the same left bound is not longer than the new one, but for bytes that other ranges hold too. -/
def Keeps (f : Rangefield) (left right : Int) : Prop :=
  ∀ old, f.mRanges[left]? = some old → Set.Ico right old ⊆ f.mRanges.coveredBut left

theorem covered_update (haccepts : Accepts f.mSize left right) :
    (f.update left right).1.covered = f.mRanges.coveredBut left ∪ Set.Ico left right := by
  rw [update, if_pos haccepts]
  exact RangeMap.covered_insert _ _ _

theorem update_of_not_accepts (h : ¬ Accepts f.mSize left right) : f.update left right = (f, false) := if_neg h

theorem covered_subset_update_iff (haccepts : Accepts f.mSize left right) :
    f.covered ⊆ (f.update left right).1.covered ↔ f.Keeps left right := by
  have hlt : left < right := by
    unfold Accepts at haccepts
    omega
  rw [covered_update haccepts]
  constructor
  · intro hsub old hold x hx
    have hx' : x ∈ f.covered := ⟨left, old, hold, hlt.le.trans hx.1, hx.2⟩
    rcases hsub hx' with h | h
    · exact h
    · exact absurd h.2 (not_lt.mpr hx.1)
  · intro hkeeps x hx
    rcases (RangeMap.mem_covered_iff _ left x).mp hx with h | ⟨old, hold, h⟩
    · exact .inl h
    · by_cases hxr : x < right
      · exact .inr ⟨h.1, hxr⟩
      · exact .inl (hkeeps old hold ⟨not_lt.mp hxr, h.2⟩)

/-- What the caller expects of `update`: an accepted range is added to the bytes covered, a rejected one changes nothing. -/
def Adds (f : Rangefield) (left right : Int) : Prop :=
  (f.update left right).1.covered =
    if (f.update left right).2 then f.covered ∪ Set.Ico left right else f.covered

theorem adds_iff (f : Rangefield) (left right : Int) :
    f.Adds left right ↔ (Accepts f.mSize left right → f.Keeps left right) := by
  by_cases haccepts : Accepts f.mSize left right
  · have hsub : (f.update left right).1.covered ⊆ f.covered ∪ Set.Ico left right := by
      rw [covered_update haccepts]
      exact union_subset_union_left _ (RangeMap.coveredBut_subset _ _)
    have hnew : Set.Ico left right ⊆ (f.update left right).1.covered := by
      rw [covered_update haccepts]
      exact subset_union_right
    have hresult : (f.update left right).2 = true := by
      rw [update, if_pos haccepts]
    rw [Adds, hresult, if_pos rfl]
    constructor
    · intro hadds _
      rw [← covered_subset_update_iff haccepts, hadds]
      exact subset_union_left
    · intro hkeeps
      have hold := (covered_subset_update_iff haccepts).mpr (hkeeps haccepts)
      exact hsub.antisymm (union_subset hold hnew)
  · rw [Adds, update_of_not_accepts haccepts]
    simp [haccepts]

def step (f : Rangefield) (c : Call) : Option Rangefield := some (f.call c)

def Exact (f : Rangefield) : Call → Prop
  | .update left right => f.Adds left right
  | c => (f.call c).covered = f.covered

def Safe (f : Rangefield) : Call → Prop
  | .update left right => Accepts f.mSize left right → f.Keeps left right
  | _ => True

theorem exact_iff_safe (f : Rangefield) (c : Call) : f.Exact c ↔ f.Safe c := by
  cases c with
  | update left right => exact f.adds_iff left right
  | checkRange | getRange | isFull => exact iff_true_intro f.covered_tidy

theorem covered_subset_of_exact {c : Call} (h : f.Exact c) : f.covered ⊆ (f.call c).covered := by
  cases c with
  | update left right =>
    have hadds : f.Adds left right := h
    rw [call, hadds]
    split
    · exact subset_union_left
    · exact Set.Subset.rfl
  | checkRange | getRange | isFull =>
    rw [call, f.covered_tidy]

open EventMachine

/-- All calls of a run do to the covered bytes what they are meant to do exactly when no accepted `update` overwrites bytes that it does not hold itself, and after such a run no byte has been lost. -/
theorem run_exact_iff (f : Rangefield) (calls : List Call) :
    (Meets step Exact f calls ↔ Meets step Safe f calls) ∧
      (Meets step Safe f calls → ∀ f', run step f calls = some f' → f.covered ⊆ f'.covered) := by
  refine ⟨meets_congr exact_iff_safe f calls, ?_⟩
  intro hsafe f' hrun
  have hstep : ∀ (g : Rangefield) c (g' : Rangefield), f.covered ⊆ g.covered → g.Safe c → g.step c = some g' →
      f.covered ⊆ g'.covered := by
    intro g c g' hg hc hcall
    obtain rfl : g.call c = g' := Option.some.inj hcall
    exact hg.trans (covered_subset_of_exact ((exact_iff_safe g c).mpr hc))
  exact invariant_of_meets hstep Set.Subset.rfl hsafe hrun

theorem run_exact_touching : Meets step Exact (new 10) [.update 0 3, .checkRange 0 2, .update 2 8, .isFull] := by
  refine (run_exact_iff _ _).1.mpr ⟨?_, trivial, ?_, trivial, trivial⟩
  · intro _ old hold
    simp [new] at hold
  · intro _ old hold
    have hnone : ((new 10).call (.update 0 3)).tidy.mRanges[(2 : Int)]? = none := by decide
    exact absurd (hnone.symm.trans hold) (by simp)

/-- Of the bytes 0 to 7 those from 3 on are lost when the bytes 0 to 2 are added again. -/
theorem update_loses_bytes :
    (((new 10).update 0 8).1.update 0 3).2 = true ∧
      (5 : Int) ∈ ((new 10).update 0 8).1.covered ∧
      (5 : Int) ∉ (((new 10).update 0 8).1.update 0 3).1.covered := by
  have hranges : (((new 10).update 0 8).1.update 0 3).1.mRanges.toList = [(0, 3)] := by
    decide
  refine ⟨by decide, ⟨0, 8, by decide, by decide, by decide⟩, ?_⟩
  rw [covered, RangeMap.mem_covered_iff_toList, hranges]
  simp

end Rangefield

end Http

end Avbot
