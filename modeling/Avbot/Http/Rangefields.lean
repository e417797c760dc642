import Avbot.Http.Bitfield
import Avbot.Http.FreeSpace
import Mathlib.Data.Int.Interval
import Mathlib.Data.Set.Card
import Mathlib.Order.Interval.Finset.Defs

/-!
# The operations of a field

All public operations of `rangefield`, with the locks they take. In every state that they lead to, the ranges lie in the file, and once they are merged they neither overlap nor touch.
-/

namespace Avbot.Http.Rangefield

open List Option RangeMap Set

section Locks

variable {α : Type}

/-- A `scoped_lock` on `m_mutex` for the rest of a function. There is no answer if the mutex is already held. -/
def scopedLock (held : Bool) (body : Bool → Option α) : Option α := if held then none else body true

def lockedMerge (held : Bool) (f : Rangefield) : Option Rangefield := scopedLock held fun _ => some f.merge

def mergeIfNeeded (held : Bool) (f : Rangefield) : Option Rangefield :=
  if f.mNeedMerge then lockedMerge held f else some f

def lockedInverseImpl (held : Bool) (f : Rangefield) : Option (Rangefield × RangeMap) := do
  let f ← mergeIfNeeded held f
  return (f, f.inverseImpl)

/-- `out_space` behind an offset: the field and the answer. -/
def lockedOutSpace (f : Rangefield) (offset : Int) : Option (Rangefield × Option (Int × Int)) := do
  let f ← mergeIfNeeded false f
  scopedLock false fun held => do
    let (f, inv) ← lockedInverseImpl held f
    return (f, (outSpaceLoop offset inv.toList).or inv.toList.head?)

/-- The field after the call, and the one that is returned. -/
def inverse (f : Rangefield) : Option (Rangefield × Rangefield) :=
  scopedLock false fun held => do
    let (f, m) ← lockedInverseImpl held f
    return (f, { f with mRanges := m })

end Locks

def rangeSize (f : Rangefield) : Int := (f.mRanges.toList.map fun i => i.2 - i.1).sum

inductive Op where
  | reset (size : Int)
  | update (left right : Int)
  | checkRange (left right : Int)
  | getRange (left right : Int)
  | outSpace
  | outSpaceFrom (offset : Int)
  | isFull
  | rangeSize
  | rangeToBitfield (pieceSize : Int)
  | bitfieldToRange (bits : List Bool) (pieceSize : Int)
  | print
  | inverse

def perform (f : Rangefield) : Op → Option Rangefield
  | .reset size => scopedLock false fun _ => some (new size)
  | .update left right => scopedLock false fun _ => some (f.update left right).1
  | .checkRange _ _ | .getRange _ _ | .isFull | .rangeToBitfield _ => do
    let f ← mergeIfNeeded false f
    scopedLock false fun _ => some f
  | .outSpace => do
    let f ← mergeIfNeeded false f
    (f.lockedOutSpace 0).map (·.1)
  | .outSpaceFrom offset => (f.lockedOutSpace offset).map (·.1)
  | .rangeSize | .print => scopedLock false fun _ => some f
  | .bitfieldToRange bits pieceSize => scopedLock false fun _ => some (f.bitsToRange id bits pieceSize)
  | .inverse => f.inverse.map (·.1)

/-- What `bitfield_to_range` asserts of its arguments. -/
def Op.Asserted (f : Rangefield) : Op → Prop
  | .bitfieldToRange bits pieceSize => 0 < pieceSize ∧ ∀ i < bits.length, i * pieceSize < f.mSize
  | _ => True

/-- The states of fields, also of those that `inverse` returns. For a negative size it returns a range that ends before it begins. -/
inductive Reachable : Rangefield → Prop
  | new (size : Int) : Reachable (new size)
  | perform {f f' : Rangefield} {op : Op} : Reachable f → op.Asserted f → f.perform op = some f' → Reachable f'
  | inverse {f f' g : Rangefield} : Reachable f → 0 ≤ f.mSize → f.inverse = some (f', g) → Reachable g

variable {f f' g : Rangefield} {op : Op} {offset left right size pieceSize : Int}

theorem mergeIfNeeded_free (f : Rangefield) : mergeIfNeeded false f = some f.tidy := by
  unfold mergeIfNeeded tidy
  split <;> rfl

theorem mNeedMerge_tidy (f : Rangefield) : f.tidy.mNeedMerge = false := by
  unfold tidy
  split
  · rfl
  · rename_i hneed
    exact Bool.eq_false_iff.mpr hneed

theorem lockedInverseImpl_held (f : Rangefield) :
    lockedInverseImpl true f = if f.mNeedMerge then none else some (f, f.inverseImpl) := by
  unfold lockedInverseImpl mergeIfNeeded
  split <;> rfl

theorem lockedOutSpace_eq (f : Rangefield) (offset : Int) :
    f.lockedOutSpace offset = some (f.tidy, f.tidy.outSpace offset) := by
  rw [lockedOutSpace, mergeIfNeeded_free]
  show (lockedInverseImpl true f.tidy).bind _ = _
  rw [lockedInverseImpl_held, mNeedMerge_tidy]
  rfl

theorem inverse_eq (f : Rangefield) :
    f.inverse = if f.mNeedMerge then none else some (f, { f with mRanges := f.inverseImpl }) := by
  show (lockedInverseImpl true f).bind _ = _
  rw [lockedInverseImpl_held]
  split <;> rfl

/-- What an operation can do to a field. -/
theorem perform_cases (h : f.perform op = some f') :
    f' = f ∨ f' = f.tidy ∨ (∃ size, f' = new size) ∨ (∃ left right, f' = (f.update left right).1) ∨
      ∃ bits pieceSize, op = .bitfieldToRange bits pieceSize ∧ f' = f.bitsToRange id bits pieceSize := by
  cases op with
  | reset size => exact .inr (.inr (.inl ⟨size, (some.inj h).symm⟩))
  | update left right => exact .inr (.inr (.inr (.inl ⟨left, right, (some.inj h).symm⟩)))
  | bitfieldToRange bits pieceSize => exact .inr (.inr (.inr (.inr ⟨bits, pieceSize, rfl, (some.inj h).symm⟩)))
  | rangeSize | print => exact .inl (some.inj h).symm
  | checkRange | getRange | isFull | rangeToBitfield =>
    rw [perform, mergeIfNeeded_free] at h
    exact .inr (.inl (some.inj h).symm)
  | outSpaceFrom offset =>
    rw [perform, lockedOutSpace_eq] at h
    exact .inr (.inl (some.inj h).symm)
  | outSpace =>
    rw [perform, mergeIfNeeded_free] at h
    replace h : (f.tidy.lockedOutSpace 0).map (·.1) = some f' := h
    rw [lockedOutSpace_eq, tidy, mNeedMerge_tidy] at h
    exact .inr (.inl (some.inj h).symm)
  | inverse =>
    rw [perform, inverse_eq] at h
    split at h
    · exact absurd h (by simp)
    · exact .inl (some.inj h).symm

def Call.toOp : Call → Op
  | .update left right => .update left right
  | .checkRange left right => .checkRange left right
  | .getRange left right => .getRange left right
  | .isFull => .isFull

theorem perform_toOp (f : Rangefield) (c : Call) : f.perform c.toOp = some (f.call c) := by
  cases c with
  | update left right => rfl
  | checkRange | getRange | isFull =>
    rw [Call.toOp, perform, mergeIfNeeded_free]
    rfl

theorem Reachable.call (h : Reachable f) (c : Call) : Reachable (f.call c) := by
  refine h.perform ?_ (perform_toOp f c)
  cases c <;> trivial

theorem perform_isSome_iff (f : Rangefield) (op : Op) :
    (f.perform op).isSome = true ↔ (op = .inverse → f.mNeedMerge = false) := by
  cases op with
  | inverse =>
    rw [perform, inverse_eq]
    cases f.mNeedMerge <;> simp
  | outSpace | outSpaceFrom | checkRange | getRange | isFull | rangeToBitfield =>
    simp [perform, mergeIfNeeded_free, lockedOutSpace_eq, scopedLock]
  | _ => simp [perform, scopedLock]

/-! ### The states of fields -/

/-- The gaps that the loop of `inverse_impl` has found touch neither each other nor the point. -/
structure Inverting.Apart (s : Inverting) : Prop where
  nonneg : 0 ≤ s.point
  separated : s.reverseMap.Separated
  below : ∀ k v : Int, s.reverseMap[k]? = some v → 0 ≤ k ∧ k < v ∧ v < s.point

section Gaps

variable {s : Inverting} {m : RangeMap} {rest : List (Int × Int)} {i : Int × Int}

theorem Inverting.apart_empty {point : Int} (hpoint : 0 ≤ point) : (Inverting.mk point ∅).Apart :=
  ⟨hpoint, by intro k v; simp, by intro k v; simp⟩

theorem Inverting.Apart.insert (h : s.Apart) (right : Int) : Separated (s.reverseMap.insertIfNew s.point right) := by
  have hwithin : s.reverseMap.Within s.point := by
    intro k v hget
    have := h.below k v hget
    omega
  exact h.separated.insertIfNew hwithin fun k v hget => (h.below k v hget).2.2

theorem Inverting.Apart.invertStep (h : s.Apart) (hi : s.point < i.1 ∧ i.1 < i.2) : (invertStep s i).Apart := by
  have hnonneg := h.nonneg
  refine ⟨by show 0 ≤ i.2; omega, h.insert i.1, fun k v hget => ?_⟩
  show 0 ≤ k ∧ k < v ∧ v < i.2
  obtain ⟨rfl, rfl⟩ | hold := getElem?_insertIfNew_cases hget
  · omega
  · have := h.below k v hold
    omega

theorem Inverting.Apart.foldl (h : s.Apart) (hrest : ∀ i ∈ rest, s.point < i.1 ∧ i.1 < i.2)
    (hsorted : rest.Pairwise fun i j => i.2 < j.1) : (rest.foldl Rangefield.invertStep s).Apart := by
  induction rest generalizing s with
  | nil => exact h
  | cons i rest ih =>
    obtain ⟨hi, htail⟩ := pairwise_cons.mp hsorted
    exact ih (h.invertStep (hrest i mem_cons_self)) (fun j hj => ⟨hi j hj, (hrest j (mem_cons_of_mem _ hj)).2⟩) htail

theorem toList_separated (h : m.Separated) : m.toList.Pairwise fun i j => i.2 < j.1 :=
  m.toList_sorted.imp_of_mem fun hi hj hlt => h _ _ _ _ (mem_toList_iff.mp hi) (mem_toList_iff.mp hj) hlt

theorem inverseImpl_separated (hwithin : f.mRanges.Within size) (hseparated : f.mRanges.Separated) :
    f.inverseImpl.Separated := by
  have hapart : (invertLoop f.mRanges.toList).Apart := by
    have hbounds : ∀ i ∈ f.mRanges.toList, _ := fun i hi => hwithin _ _ (mem_toList_iff.mp hi)
    have hsorted := toList_separated hseparated
    cases hlist : f.mRanges.toList with
    | nil => exact Inverting.apart_empty (le_refl 0)
    | cons i rest =>
      rw [hlist] at hbounds hsorted
      obtain ⟨hi, htail⟩ := pairwise_cons.mp hsorted
      have hfirst := hbounds i mem_cons_self
      have hstart : (invertFirst i).Apart := by
        by_cases hzero : i.1 = 0
        · rw [invertFirst, if_neg (not_not.mpr hzero)]
          exact Inverting.apart_empty (by omega)
        · rw [invertFirst, if_pos hzero]
          exact (Inverting.apart_empty (le_refl 0)).invertStep (by show 0 < i.1 ∧ _; omega)
      refine hstart.foldl (fun j hj => ?_) htail
      have hnext := hi j hj
      have := hbounds j (mem_cons_of_mem _ hj)
      exact ⟨hnext, by omega⟩
  rw [inverseImpl]
  split
  · exact hapart.insert f.mSize
  · exact hapart.separated

theorem invertLoop_of_no_bytes (hwithin : m.Within size) (hsize : size ≤ 0) : invertLoop m.toList = ⟨0, ∅⟩ := by
  have hranges : ∀ i ∈ m.toList, i = (0, 0) := by
    intro i hi
    have hbounds := hwithin _ _ (mem_toList_iff.mp hi)
    exact Prod.ext (by omega) (by omega)
  rcases toList_of_forall_eq hranges with hnil | hsingle
  · rw [hnil, invertLoop]
  · rw [hsingle, invertLoop, foldl_nil, invertFirst, if_neg (by decide)]

theorem inverseImpl_within (hwithin : f.mRanges.Within f.mSize) (hseparated : f.mRanges.Separated) (hsize : 0 ≤ f.mSize) :
    f.inverseImpl.Within f.mSize := by
  intro k v hget
  rcases hsize.eq_or_lt with hzero | hpos
  · rw [inverseImpl, invertLoop_of_no_bytes hwithin hzero.ge] at hget
    split at hget
    · obtain ⟨rfl, rfl⟩ | hold := getElem?_insertIfNew_cases hget
      · exact ⟨le_refl _, .inr ⟨rfl, hzero.symm⟩, le_refl _⟩
      · exact absurd hold (by simp)
    · exact absurd hget (by simp)
  · obtain ⟨hk, hlt, hle⟩ := (inverseImpl_exact hwithin hseparated hpos).gaps k v hget
    exact ⟨hk, .inl hlt, hle⟩

end Gaps

/-- The field with the size 0 if its own is negative. -/
def padded (f : Rangefield) : Rangefield := { f with mSize := max f.mSize 0 }

theorem padded_of_nonneg (hsize : 0 ≤ f.mSize) : f.padded = f := by
  rw [padded, max_eq_left hsize]

theorem padded_tidy (f : Rangefield) : f.padded.tidy = f.tidy.padded := by
  rw [tidy, tidy, show f.padded.mNeedMerge = f.mNeedMerge from rfl]
  split <;> rfl

theorem Reachable.padded (h : Reachable f) : f.padded.Sane := by
  induction h with
  | new size => exact sane_new _
  | @perform f f' op hf hassert hop ih =>
    obtain rfl | rfl | ⟨size, rfl⟩ | ⟨left, right, rfl⟩ | ⟨bits, pieceSize, rfl, rfl⟩ := perform_cases hop
    · exact ih
    · rw [← padded_tidy]
      exact (ih.tidy (le_max_right _ _)).1
    · exact sane_new _
    · by_cases haccepts : Accepts f.mSize left right
      · have hsize : 0 ≤ f.mSize := by
          unfold Accepts at haccepts
          omega
        rw [padded_of_nonneg hsize] at ih
        rw [padded_of_nonneg (by rwa [mSize_update])]
        exact ih.update haccepts
      · rwa [update_of_not_accepts haccepts]
    · refine ⟨fun k v hget => ?_, fun hneed => Bool.noConfusion hneed⟩
      obtain ⟨hk, hlt, hle, -⟩ := (readBits_exact hassert.1 hassert.2).close.within k v hget
      exact ⟨hk, .inl hlt, hle.trans (le_max_left _ _)⟩
  | @inverse f f' g hf hsize hinverse ih =>
    rw [inverse_eq] at hinverse
    split at hinverse
    · exact absurd hinverse (by simp)
    · rename_i hneed
      obtain ⟨-, rfl⟩ := Prod.mk.inj (some.inj hinverse)
      rw [padded_of_nonneg hsize] at ih
      have hseparated := ih.separated (Bool.eq_false_iff.mpr hneed)
      rw [padded_of_nonneg (by exact hsize)]
      exact ⟨inverseImpl_within ih.within hseparated hsize, fun _ => inverseImpl_separated ih.within hseparated⟩

theorem Reachable.sane (h : Reachable f) (hsize : 0 ≤ f.mSize) : f.Sane := by
  have hsane := h.padded
  rwa [padded_of_nonneg hsize] at hsane

/-! ### The answers of a field -/

/-- No range that the loop of `merge` has finished is empty, and the growing one only as long as there is none. -/
def Merging.Proper (s : Merging) : Prop :=
  (∀ k v : Int, s.result[k]? = some v → k < v) ∧
    ((0 ≤ s.maxValue.1 ∧ s.maxValue.1 < s.maxValue.2) ∨ (s.maxValue = (0, 0) ∧ s.result = ∅))

theorem Merging.Proper.mergeStep {s : Merging} {i : Int × Int} (h : s.Proper)
    (hi : 0 ≤ i.1 ∧ (i.1 < i.2 ∨ (i.1 = 0 ∧ i.2 = 0))) : (mergeStep s i).Proper := by
  obtain ⟨hresult, hmax⟩ := h
  have hstart : (0 ≤ s.maxValue.1 ∧ s.maxValue.1 < s.maxValue.2) ∨ (s.maxValue.1 = 0 ∧ s.maxValue.2 = 0) :=
    hmax.imp_right fun hzero => by simp [hzero.1]
  rw [Rangefield.mergeStep]
  split_ifs with hinside hhead hgrow hnext hkept
  · exact ⟨hresult, hmax⟩
  · exact ⟨hresult, .inl ⟨hi.1, show i.1 < s.maxValue.2 by omega⟩⟩
  · exact ⟨hresult, .inl ⟨show 0 ≤ s.maxValue.1 by omega, show s.maxValue.1 < i.2 by omega⟩⟩
  · refine ⟨fun k v hget => ?_, .inl ⟨hi.1, show i.1 < i.2 by omega⟩⟩
    obtain ⟨rfl, rfl⟩ | hold := getElem?_insertIfNew_cases hget
    · omega
    · exact hresult k v hold
  · exact ⟨hresult, .inl ⟨hi.1, show i.1 < i.2 by omega⟩⟩
  · exact ⟨hresult, hmax⟩

theorem Merging.Proper.foldl {s : Merging} {rest : List (Int × Int)} (h : s.Proper)
    (hrest : ∀ i ∈ rest, 0 ≤ i.1 ∧ (i.1 < i.2 ∨ (i.1 = 0 ∧ i.2 = 0))) : (rest.foldl Rangefield.mergeStep s).Proper := by
  induction rest generalizing s with
  | nil => exact h
  | cons i rest ih => exact ih (h.mergeStep (hrest i mem_cons_self)) fun j hj => hrest j (mem_cons_of_mem _ hj)

theorem merge_proper (hwithin : f.mRanges.Within size) :
    (∀ i ∈ f.merge.mRanges.toList, i.1 < i.2) ∨ f.covered = ∅ ∧ f.merge.mRanges.toList = [(0, 0)] := by
  have hstart : Merging.Proper ⟨∅, (0, 0)⟩ := ⟨by intro k v; simp, .inr ⟨rfl, rfl⟩⟩
  have hranges : ∀ i ∈ f.mRanges.toList, 0 ≤ i.1 ∧ (i.1 < i.2 ∨ (i.1 = 0 ∧ i.2 = 0)) := fun i hi =>
    ⟨(hwithin _ _ (mem_toList_iff.mp hi)).1, (hwithin _ _ (mem_toList_iff.mp hi)).2.1⟩
  obtain ⟨hresult, hmax | ⟨hmax, hempty⟩⟩ := hstart.foldl hranges
  · refine .inl fun i hi => ?_
    obtain ⟨hleft, hright⟩ | hold := getElem?_insertIfNew_cases (mem_toList_iff.mp hi)
    · rw [hleft, hright]
      exact hmax.2
    · exact hresult _ _ hold
  · have hmerge : f.merge.mRanges = (∅ : RangeMap).insertIfNew 0 0 := by
      show Std.ExtTreeMap.insertIfNew _ _ _ = _
      rw [mergeLoop, hmax, hempty]
    refine .inr ⟨?_, by rw [hmerge]; decide⟩
    rw [← covered_merge, covered, hmerge, covered_insertIfNew (by simp), covered_empty]
    simp

theorem checkRange_iff (h : Reachable f) (hlt : left < right) :
    f.checkRange left right = true ↔ Set.Ico left right ⊆ f.covered := by
  obtain ⟨-, hseparated⟩ := h.padded.tidy (le_max_right _ _)
  rw [padded_tidy] at hseparated
  rw [← covered_tidy, checkRange, List.any_eq_true]
  constructor
  · rintro ⟨i, hi, hbounds⟩
    simp only [Bool.and_eq_true, decide_eq_true_eq] at hbounds
    exact fun x hx => ⟨i.1, i.2, mem_toList_iff.mp hi, hbounds.1.trans hx.1, hx.2.trans_le hbounds.2⟩
  · intro hsub
    obtain ⟨k, v, hget, hk, hv⟩ := hseparated.exists_range hlt hsub
    exact ⟨(k, v), mem_toList_iff.mpr hget, by simp [hk, hv]⟩

theorem isFull_iff (h : f.Sane) (hsize : 0 < f.mSize) : f.isFull = true ↔ Set.Ico 0 f.mSize ⊆ f.covered := by
  refine ⟨fun hfull => ?_, h.isFull_of_covered hsize⟩
  rw [isFull] at hfull
  split at hfull
  · rename_i i hlist
    obtain ⟨hleft, hright⟩ := of_decide_eq_true hfull
    rw [← covered_tidy, ← hleft, ← hright]
    exact fun x hx => ⟨i.1, i.2, mem_toList_iff.mp (by rw [hlist]; exact mem_singleton_self i), hx⟩
  · exact absurd hfull (by decide)

def overlapping : Rangefield := [.update 0 5, .update 3 8, .update 8 12, .update 15 18].foldl call (new 20)

theorem overlapping_reachable : Reachable overlapping :=
  ((((Reachable.new 20).call (.update 0 5)).call (.update 3 8)).call (.update 8 12)).call (.update 15 18)

def free (f : Rangefield) : Set Int := Set.Ico 0 f.mSize \ f.covered

section OutSpace

variable {gaps : List (Int × Int)} {r : Int × Int}

theorem outSpaceLoop_none (h : outSpaceLoop offset gaps = none) : ∀ i ∈ gaps, i.2 ≤ offset := by
  induction gaps with
  | nil => simp
  | cons i rest ih =>
    rw [outSpaceLoop] at h
    split_ifs at h with hge hlt
    exact forall_mem_cons.mpr ⟨not_lt.mp hlt, ih h⟩

theorem outSpaceLoop_least (h : outSpaceLoop offset gaps = some r) (hsorted : gaps.Pairwise fun i j => i.1 < j.1) :
    offset ≤ r.1 ∧ ∀ i ∈ gaps, ∀ x ∈ Set.Ico i.1 i.2, offset ≤ x → r.1 ≤ x := by
  induction gaps with
  | nil => exact absurd h (by simp [outSpaceLoop])
  | cons i rest ih =>
    obtain ⟨hi, htail⟩ := pairwise_cons.mp hsorted
    rw [outSpaceLoop] at h
    split_ifs at h with hge hlt
    · obtain rfl := some.inj h
      exact ⟨le_refl _, fun _ _ _ _ hx => hx⟩
    · obtain ⟨hle, hleast⟩ := ih h htail
      refine ⟨hle, forall_mem_cons.mpr ⟨fun x hx hoffset => ?_, hleast⟩⟩
      exact absurd hx.2 (not_lt.mpr ((not_lt.mp hlt).trans hoffset))
    · obtain rfl := some.inj h
      refine ⟨(not_le.mp hge).le, forall_mem_cons.mpr ⟨fun x hx _ => hx.1, fun j hj x hx _ => ?_⟩⟩
      exact (hi j hj).le.trans hx.1

theorem head?_eq_outSpaceLoop (hgaps : ∀ i ∈ gaps, 0 ≤ i.1) : gaps.head? = outSpaceLoop (-1) gaps := by
  cases gaps with
  | nil => rfl
  | cons i rest =>
    have := hgaps i mem_cons_self
    rw [outSpaceLoop, if_neg (by omega), head?_cons]

end OutSpace

def gapped : Rangefield := [.update 2 5, .update 8 12, .update 15 20].foldl call (new 20)

section GetRange

variable {ranges : List (Int × Int)} {answer : Int}

theorem getRangeLoop_none_iff (hlt : left < right) :
    getRangeLoop left right ranges = none ↔ ∀ i ∈ ranges, left ∉ Set.Ico i.1 i.2 := by
  induction ranges with
  | nil => simp [getRangeLoop]
  | cons i rest ih =>
    rw [getRangeLoop, forall_mem_cons, ← ih, mem_Ico]
    grind

theorem getRangeLoop_some (hlt : left < right) (h : getRangeLoop left right ranges = some answer) :
    left < answer ∧ answer ≤ right ∧ ∃ i ∈ ranges, i.1 ≤ left ∧ answer ≤ i.2 := by
  induction ranges with
  | nil => exact absurd h (by simp [getRangeLoop])
  | cons i rest ih =>
    rw [getRangeLoop] at h
    grind

end GetRange

/-- What is asked of `get_range`. -/
def FindsRange (f : Rangefield) (left right : Int) : Prop :=
  (f.getRange left right = none ↔ ∀ x ∈ Set.Ico left right, x ∉ f.covered) ∧
    ∀ answer, f.getRange left right = some answer →
      left < answer ∧ answer ≤ right ∧ Set.Ico left answer ⊆ f.covered

/-- `get_range` only finds what begins at its left bound. -/
theorem findsRange_iff (f : Rangefield) (hlt : left < right) :
    f.FindsRange left right ↔ (left ∈ f.covered ∨ ∀ x ∈ Set.Ico left right, x ∉ f.covered) := by
  have hnone : f.getRange left right = none ↔ left ∉ f.covered := by
    rw [getRange, getRangeLoop_none_iff hlt, ← covered_tidy, covered, mem_covered_iff_toList]
    simp
  have hsome : ∀ answer, f.getRange left right = some answer →
      left < answer ∧ answer ≤ right ∧ Set.Ico left answer ⊆ f.covered := by
    intro answer hanswer
    obtain ⟨hlow, hhigh, i, hi, hfirst, hlast⟩ := getRangeLoop_some hlt hanswer
    refine ⟨hlow, hhigh, fun x hx => ?_⟩
    rw [← covered_tidy]
    exact ⟨i.1, i.2, mem_toList_iff.mp hi, hfirst.trans hx.1, hx.2.trans_le hlast⟩
  constructor
  · rintro ⟨hempty, -⟩
    by_cases hcovered : left ∈ f.covered
    · exact .inl hcovered
    · exact .inr (hempty.mp (hnone.mpr hcovered))
  · intro hcases
    exact ⟨hnone.trans ⟨hcases.resolve_left, fun hempty => hempty left ⟨le_refl _, hlt⟩⟩, hsome⟩

theorem findsRange_at_start : ((new 10).update 2 5).1.FindsRange 2 8 :=
  (findsRange_iff _ (by decide)).mpr (.inl ⟨2, 5, by decide, by decide, by decide⟩)

/-- The byte 5 is there, but the range that has it begins behind byte 0. -/
theorem not_findsRange_inside :
    ((new 10).update 5 8).1.getRange 0 10 = none ∧ (5 : Int) ∈ ((new 10).update 5 8).1.covered :=
  ⟨by decide, 5, 8, by decide, by decide, by decide⟩

/-- The answer of `wait_for_complete` once the download has stopped. -/
def waitForComplete (fileSize : Int) (downloaded : Rangefield) : Bool :=
  if fileSize ≠ -1 ∧ fileSize ≠ downloaded.rangeSize then false else true

def CountsRight (f : Rangefield) : Prop :=
  f.rangeSize = f.covered.ncard ∧
    ∀ fileSize, waitForComplete fileSize f = decide (fileSize = -1 ∨ fileSize = f.covered.ncard)

/-- The sum of the sizes counts the bytes of an overlap more than once. -/
theorem sum_sizes {ranges : List (Int × Int)} (hsorted : ranges.Pairwise fun i j => i.1 < j.1)
    (hranges : ∀ i ∈ ranges, 0 ≤ i.1 ∧ (i.1 < i.2 ∨ (i.1 = 0 ∧ i.2 = 0))) :
    { x | ∃ i ∈ ranges, x ∈ Set.Ico i.1 i.2 }.Finite ∧ ∃ twice : Nat,
      (ranges.map fun i => i.2 - i.1).sum = { x | ∃ i ∈ ranges, x ∈ Set.Ico i.1 i.2 }.ncard + twice ∧
      (twice = 0 ↔ ranges.Pairwise fun i j => i.2 ≤ j.1) := by
  induction ranges with
  | nil => exact ⟨by simp, 0, by simp, by simp⟩
  | cons i rest ih =>
    obtain ⟨hi, htail⟩ := pairwise_cons.mp hsorted
    obtain ⟨hfirst, hrest⟩ := forall_mem_cons.mp hranges
    obtain ⟨hfinite, twice, hsum, htwice⟩ := ih htail hrest
    have hunion : { x | ∃ j ∈ i :: rest, x ∈ Set.Ico j.1 j.2 } =
        Set.Ico i.1 i.2 ∪ { x | ∃ j ∈ rest, x ∈ Set.Ico j.1 j.2 } := by
      ext x
      simp
    have hcard := ncard_union_add_ncard_inter _ _ (finite_Ico i.1 i.2) hfinite
    have hsize : ((Set.Ico i.1 i.2).ncard : Int) = i.2 - i.1 := by
      rw [← Finset.coe_Ico, ncard_coe_finset, Int.card_Ico]
      omega
    rw [hunion, map_cons, sum_cons, pairwise_cons]
    refine ⟨(finite_Ico i.1 i.2).union hfinite,
      (Set.Ico i.1 i.2 ∩ { x | ∃ j ∈ rest, x ∈ Set.Ico j.1 j.2 }).ncard + twice, by omega, ?_⟩
    rw [Nat.add_eq_zero_iff, htwice, ncard_eq_zero ((finite_Ico i.1 i.2).inter_of_left _)]
    refine and_congr_left' ⟨fun hempty j hj => ?_, fun hnext => ?_⟩
    · by_contra hoverlap
      have := hi j hj
      have := hrest j hj
      exact hempty.subset (show j.1 ∈ _ from ⟨⟨by omega, by omega⟩, j, hj, by omega, by omega⟩)
    · refine eq_empty_of_forall_notMem fun x ⟨hx, j, hj, hxj⟩ => ?_
      exact absurd ((hnext j hj).trans hxj.1) (not_le.mpr hx.2)

theorem covered_inverseImpl (h : Reachable f) (hneed : f.mNeedMerge = false) : f.inverseImpl.covered = f.free := by
  by_cases hsize : 0 < f.mSize
  · have hsane := h.sane hsize.le
    exact (inverseImpl_exact hsane.within (hsane.separated hneed) hsize).covered
  · have hloop : invertLoop f.mRanges.toList = ⟨0, ∅⟩ :=
      invertLoop_of_no_bytes h.padded.within (max_eq_right (not_lt.mp hsize)).le
    rw [free, Set.Ico_eq_empty hsize, empty_sdiff, inverseImpl, hloop]
    split
    · rw [covered_insertIfNew (by simp), covered_empty, Set.Ico_eq_empty hsize, empty_union]
    · exact covered_empty

end Avbot.Http.Rangefield
