import Avbot.Base.MachineInt
import Avbot.Http.FreeSpace
import Mathlib.Algebra.Order.Ring.Int

/-!
# Allocation of ranges

Every connection of a download asks `allocate_range` for the bytes it is to request next. The function takes free space from `m_rangefield`, cuts it down to the size of a request, and marks it, all under a lock. The size of a gap is computed with the right bound included, and wraps around for a file of 2^63 - 1 bytes.
-/

namespace Avbot

open List Option Set

namespace Http

/-- `range::size`, which counts the right bound too. -/
def rangeSize (r : Int × Int) : Int := int64 (r.2 - r.1 + 1)

structure RequestSettings where
  requestPieceNum : Int
  pieceSize : Int

namespace RequestSettings

def maxRequestBytes (s : RequestSettings) : Int := int32 (s.requestPieceNum * s.pieceSize)

def limit (s : RequestSettings) (temp : Int × Int) : Int × Int :=
  if rangeSize temp > s.maxRequestBytes then (temp.1, int64 (temp.1 + s.maxRequestBytes)) else temp

end RequestSettings

/-- What a call of `allocate_range` meets: the download point, and `m_abort` at the end of every round. -/
structure AllocateCall where
  mDownloadPoint : Int
  mAbort : Nat → Bool

/-- The loop of `allocate_range`; `none` if it has not ended after so many rounds. The answer is the inclusive range, or `none` for `false`. -/
def allocateRange (s : RequestSettings) : Nat → Rangefield → AllocateCall → Option (Rangefield × Option (Int × Int))
  | 0, _, _ => none
  | fuel + 1, f, c =>
    match f.tidy.outSpace c.mDownloadPoint with
    | none => some (f.tidy, none)
    | some temp =>
      let r := s.limit temp
      let update := f.tidy.update r.1 r.2
      if update.2 || c.mAbort 0 then some (update.1, if r.2 - 1 < r.1 then none else some (r.1, r.2 - 1))
      else allocateRange s fuel update.1 { c with mAbort := fun round => c.mAbort (round + 1) }

def allocateAll (s : RequestSettings) (fuel : Nat) :
    Rangefield → List AllocateCall → Option (Rangefield × List (Option (Int × Int)))
  | f, [] => some (f, [])
  | f, c :: calls => do
    let (f, answer) ← allocateRange s fuel f c
    let (f, answers) ← allocateAll s fuel f calls
    return (f, answer :: answers)

def granted (answers : List (Option (Int × Int))) : Set Int :=
  { x | ∃ l r, some (l, r) ∈ answers ∧ x ∈ Set.Icc l r }

/-- The answers to the calls on a field of `size` bytes, of which those in `start` are taken. -/
structure SoundAnswers (size longest : Int) (start : Set Int) (answers : List (Option (Int × Int))) : Prop where
  inside : ∀ l r, some (l, r) ∈ answers → l ≤ r ∧ 0 ≤ l ∧ r < size
  free : ∀ l r, some (l, r) ∈ answers → Disjoint (Set.Icc l r) start
  short : ∀ l r, some (l, r) ∈ answers → r - l + 1 ≤ longest
  disjoint : answers.Pairwise fun a b => ∀ i ∈ a, ∀ j ∈ b, Disjoint (Set.Icc i.1 i.2) (Set.Icc j.1 j.2)
  refused : ∀ before a after, answers = before ++ a :: after →
    (a = none ↔ Set.Ico 0 size ⊆ start ∪ granted before)

def AllocatesWell (s : RequestSettings) (f : Rangefield) : Prop :=
  ∀ calls, ∃ fuel f' answers, allocateAll s fuel f calls = some (f', answers) ∧
    SoundAnswers f.mSize (s.requestPieceNum * s.pieceSize) f.covered answers

inductive Allocates (f f' : Rangefield) : Option (Int × Int) → Prop where
  | refuse (full : Set.Ico 0 f.mSize ⊆ f.covered) (same : f'.covered = f.covered) : Allocates f f' none
  | grant {l r : Int} (nonempty : l ≤ r) (free : Set.Icc l r ⊆ Set.Ico 0 f.mSize \ f.covered)
      (added : f'.covered = f.covered ∪ Set.Icc l r) : Allocates f f' (some (l, r))

def Short (longest : Int) (a : Option (Int × Int)) : Prop := ∀ l r, a = some (l, r) → r - l + 1 ≤ longest

def Rangefield.Unbounded (f : Rangefield) : Prop := f.mSize = 9223372036854775807 ∧ f.covered = ∅

section Limits

-- settings whose product is the greatest number of bytes of a request
variable {s : RequestSettings} (hpiece : 0 < s.pieceSize) (hnum : 0 < s.requestPieceNum)
  (hproduct : s.requestPieceNum * s.pieceSize < intLimit)

include hpiece hnum hproduct

theorem RequestSettings.maxRequestBytes_spec :
    s.maxRequestBytes = s.requestPieceNum * s.pieceSize ∧ 0 < s.maxRequestBytes ∧ s.maxRequestBytes < 2147483648 := by
  have hpos : 0 < s.requestPieceNum * s.pieceSize := mul_pos hnum hpiece
  rw [intLimit] at hproduct
  have heq : s.maxRequestBytes = s.requestPieceNum * s.pieceSize := int32_of_fits (by omega) (by omega)
  exact ⟨heq, by omega, by omega⟩

theorem RequestSettings.limit_spec {l r : Int} (hlow : 0 ≤ l) (hlt : l < r) (hhigh : r ≤ 9223372036854775807) :
    (s.limit (l, r)).1 = l ∧ l < (s.limit (l, r)).2 ∧ (s.limit (l, r)).2 ≤ r ∧
      ((l = 0 → r < 9223372036854775807) → (s.limit (l, r)).2 - l ≤ s.requestPieceNum * s.pieceSize) := by
  obtain ⟨hmax, hpos, hbelow⟩ := RequestSettings.maxRequestBytes_spec hpiece hnum hproduct
  by_cases hfits : l = 0 → r < 9223372036854775807
  · have hsize : rangeSize (l, r) = r - l + 1 :=
      int64_of_fits (by show _ ≤ r - l + 1; omega) (by show r - l + 1 ≤ _; omega)
    rw [limit, hsize, ← hmax]
    split_ifs with hlong
    · show l = l ∧ l < int64 (l + s.maxRequestBytes) ∧ int64 (l + s.maxRequestBytes) ≤ r ∧
        (_ → int64 (l + s.maxRequestBytes) - l ≤ s.maxRequestBytes)
      rw [int64_of_fits (by omega) (by omega)]
      omega
    · omega
  · obtain ⟨rfl, rfl⟩ : l = 0 ∧ r = 9223372036854775807 := by omega
    have hwrapped : rangeSize (0, 9223372036854775807) = -9223372036854775808 := by decide
    rw [limit, if_neg (by omega)]
    exact ⟨rfl, hlt, le_refl _, fun hfits' => absurd hfits' hfits⟩

theorem allocateRange_spec {f : Rangefield} (hsane : f.Sane) (hsize : 0 < f.mSize ∧ f.mSize ≤ 9223372036854775807)
    (fuel : Nat) (c : AllocateCall) :
    ∃ f' answer, allocateRange s (fuel + 1) f c = some (f', answer) ∧ f'.Sane ∧ f'.mSize = f.mSize ∧
      Allocates f f' answer ∧ (¬ f.Unbounded → Short (s.requestPieceNum * s.pieceSize) answer) := by
  obtain ⟨htidy, hseparated⟩ := hsane.tidy hsize.1.le
  have hspec := Rangefield.outSpace_spec htidy.within hseparated (by rw [Rangefield.mSize_tidy]; exact hsize.1) c.mDownloadPoint
  rw [Rangefield.mSize_tidy, Rangefield.covered_tidy] at hspec
  unfold allocateRange
  cases hspace : f.tidy.outSpace c.mDownloadPoint with
  | none => exact ⟨f.tidy, none, rfl, htidy, f.mSize_tidy, .refuse (hspec.1 hspace) f.covered_tidy, fun _ _ _ h => nomatch h⟩
  | some temp =>
    obtain ⟨l, r⟩ := temp
    obtain ⟨hlt, hfree⟩ := hspec.2 l r hspace
    have hlow : 0 ≤ l := (hfree ⟨le_refl l, hlt⟩).1.1
    have hhigh : r ≤ f.mSize := by
      have := (hfree (show r - 1 ∈ Set.Ico l r from ⟨by omega, by omega⟩)).1.2
      omega
    obtain ⟨hleft, hlt', hle, hshort⟩ := RequestSettings.limit_spec hpiece hnum hproduct hlow hlt (by omega)
    have haccepts : Rangefield.Accepts f.tidy.mSize l (s.limit (l, r)).2 := by
      rw [Rangefield.mSize_tidy]
      unfold Rangefield.Accepts
      omega
    have hbegin : l ∉ f.tidy.covered := by
      rw [Rangefield.covered_tidy]
      exact (hfree ⟨le_refl l, hlt⟩).2
    have hadded := Rangefield.covered_update_start haccepts fun hstart => hbegin (RangeMap.starts_subset_covered _ hstart)
    have hIcc : Set.Icc l ((s.limit (l, r)).2 - 1) = Set.Ico l (s.limit (l, r)).2 := by
      ext x
      simp only [mem_Icc, mem_Ico]
      omega
    refine ⟨(f.tidy.update l (s.limit (l, r)).2).1, some (l, (s.limit (l, r)).2 - 1), ?_, htidy.update haccepts, ?_, ?_, ?_⟩
    · have hupdated : (f.tidy.update l (s.limit (l, r)).2).2 = true := by rw [Rangefield.update, if_pos haccepts]
      show (if (f.tidy.update (s.limit (l, r)).1 (s.limit (l, r)).2).2 || c.mAbort 0 then _ else _) = _
      rw [hleft, hupdated, Bool.true_or, if_pos rfl, if_neg (by omega)]
    · rw [Rangefield.mSize_update, Rangefield.mSize_tidy]
    · apply Allocates.grant
      · omega
      · rw [hIcc]
        exact (Set.Ico_subset_Ico_right hle).trans hfree
      · rw [hadded, hIcc, Rangefield.covered_tidy]
    · intro hbounded l' r' heq
      obtain ⟨rfl, rfl⟩ := Prod.mk.inj (some.inj heq)
      -- only a gap that is the whole file can be too long to be measured
      have hfits : l = 0 → r < 9223372036854775807 := by
        intro hzero
        by_contra hlong
        apply hbounded
        refine ⟨by omega, Set.eq_empty_iff_forall_notMem.mpr ?_⟩
        intro x hx
        have hinside := hsane.within.covered_subset hx
        exact (hfree ⟨by have := hinside.1; omega, by have := hinside.2; omega⟩).2 hx
      have := hshort hfits
      omega

end Limits

variable {f f' : Rangefield} {a : Option (Int × Int)}

theorem Rangefield.outSpace_of_covered_empty (hsane : f.Sane) (hsize : 0 < f.mSize)
    (hempty : f.covered = ∅) : f.outSpace 0 = some (0, f.mSize) := by
  have hall : ∀ i ∈ f.mRanges.toList, i = (0, 0) := by
    intro i hi
    have hget := RangeMap.mem_toList_iff.mp hi
    obtain ⟨-, hlt | ⟨hleft, hright⟩, -⟩ := hsane.within i.1 i.2 hget
    · have hmem : i.1 ∈ f.covered := ⟨i.1, i.2, hget, le_refl _, hlt⟩
      rw [hempty] at hmem
      exact hmem.elim
    · exact Prod.ext hleft hright
  have hgaps : f.inverseImpl.toList = [(0, f.mSize)] := by
    rw [inverseImpl]
    rcases RangeMap.toList_of_forall_eq hall with hlist | hlist
    · rw [hlist, if_pos (.inr rfl)]
      rfl
    · rw [hlist, if_pos (.inl (by show (0 : Int) ≠ f.mSize; omega))]
      rfl
  rw [outSpace, hgaps, outSpaceLoop, if_pos (le_refl _), if_pos hsize]
  rfl

theorem allocateRange_of_unbounded {s : RequestSettings} (hsane : f.Sane) (hunbounded : f.Unbounded)
    (hmax : 0 ≤ s.maxRequestBytes) (fuel : Nat) :
    ∃ f', allocateRange s (fuel + 1) f ⟨0, fun _ => false⟩ = some (f', some (0, 9223372036854775806)) := by
  obtain ⟨hlast, hempty⟩ := hunbounded
  have hsize : f.tidy.mSize = 9223372036854775807 := by rw [Rangefield.mSize_tidy, hlast]
  have hspace := Rangefield.outSpace_of_covered_empty (hsane.tidy (by omega)).1 (by omega)
    (by rw [Rangefield.covered_tidy, hempty])
  rw [hsize] at hspace
  have hlimit : s.limit (0, 9223372036854775807) = (0, 9223372036854775807) := by
    rw [RequestSettings.limit, if_neg]
    have hwrapped : rangeSize (0, 9223372036854775807) = -9223372036854775808 := by decide
    omega
  have haccepts : Rangefield.Accepts f.tidy.mSize 0 9223372036854775807 := by
    rw [hsize]
    decide
  have hupdated : (f.tidy.update 0 9223372036854775807).2 = true := by rw [Rangefield.update, if_pos haccepts]
  refine ⟨(f.tidy.update 0 9223372036854775807).1, ?_⟩
  unfold allocateRange
  rw [hspace]
  show (if (f.tidy.update (s.limit (0, 9223372036854775807)).1 (s.limit (0, 9223372036854775807)).2).2 || false then _
    else _) = _
  rw [hlimit, hupdated]
  rfl

theorem granted_cons (a : Option (Int × Int)) (answers : List (Option (Int × Int))) :
    granted (a :: answers) = granted [a] ∪ granted answers := by
  ext x
  simp only [granted, mem_cons, not_mem_nil, or_false, mem_union, mem_ofPred_eq]
  constructor
  · rintro ⟨l, r, ha | hrest, hx⟩
    · exact .inl ⟨l, r, ha, hx⟩
    · exact .inr ⟨l, r, hrest, hx⟩
  · rintro (⟨l, r, ha, hx⟩ | ⟨l, r, hrest, hx⟩)
    · exact ⟨l, r, .inl ha, hx⟩
    · exact ⟨l, r, .inr hrest, hx⟩

theorem granted_some (l r : Int) : granted [some (l, r)] = Set.Icc l r := by
  ext x
  simp [granted]

theorem Allocates.covered (h : Allocates f f' a) : f'.covered = f.covered ∪ granted [a] := by
  cases h with
  | refuse full same => simp [same, granted]
  | grant nonempty free added => rw [added, granted_some]

theorem Allocates.of_some {l r : Int} (h : Allocates f f' (some (l, r))) :
    (l ≤ r ∧ 0 ≤ l ∧ r < f.mSize) ∧ Disjoint (Set.Icc l r) f.covered := by
  obtain - | ⟨hle, hfree, -⟩ := h
  refine ⟨⟨hle, (hfree ⟨le_refl l, hle⟩).1.1, (hfree ⟨hle, le_refl r⟩).1.2⟩, ?_⟩
  apply Set.disjoint_left.mpr
  intro x hx
  exact (hfree hx).2

theorem Allocates.eq_none_iff (h : Allocates f f' a) : a = none ↔ Set.Ico 0 f.mSize ⊆ f.covered := by
  cases h with
  | refuse full same => exact iff_of_true rfl full
  | grant nonempty free added =>
    apply iff_of_false (by simp)
    intro hfull
    have hfirst := free ⟨le_refl _, nonempty⟩
    exact hfirst.2 (hfull hfirst.1)

theorem SoundAnswers.cons {longest : Int} {f f' : Rangefield} {a : Option (Int × Int)} {answers : List (Option (Int × Int))}
    (hcall : Allocates f f' a) (hshort : Short longest a) (h : SoundAnswers f.mSize longest f'.covered answers) :
    SoundAnswers f.mSize longest f.covered (a :: answers) := by
  have hcovered := hcall.covered
  constructor
  · intro l r hmem
    obtain rfl | hmem := mem_cons.mp hmem
    · exact hcall.of_some.1
    · exact h.inside l r hmem
  · intro l r hmem
    obtain rfl | hmem := mem_cons.mp hmem
    · exact hcall.of_some.2
    · apply (h.free l r hmem).mono_right
      rw [hcovered]
      exact subset_union_left
  · intro l r hmem
    obtain rfl | hmem := mem_cons.mp hmem
    · exact hshort l r rfl
    · exact h.short l r hmem
  · refine pairwise_cons.mpr ⟨?_, h.disjoint⟩
    intro b hb i hi j hj
    obtain rfl := mem_def.mp hi
    obtain rfl := mem_def.mp hj
    -- the later range is free when the earlier one is taken
    apply ((h.free j.1 j.2 hb).symm).mono_left
    rw [hcovered, granted_some]
    exact subset_union_right
  · intro before b after heq
    cases before with
    | nil =>
      obtain ⟨rfl, -⟩ := List.cons.inj heq
      rw [hcall.eq_none_iff]
      simp [granted]
    | cons c before =>
      obtain ⟨rfl, hrest⟩ := List.cons.inj heq
      rw [h.refused before b after hrest, hcovered, granted_cons a before, union_assoc]

section Limits

variable {s : RequestSettings} (hpiece : 0 < s.pieceSize) (hnum : 0 < s.requestPieceNum)
  (hproduct : s.requestPieceNum * s.pieceSize < intLimit)

include hpiece hnum hproduct

theorem allocateAll_spec {f : Rangefield} (hsane : f.Sane) (hsize : 0 < f.mSize ∧ f.mSize ≤ 9223372036854775807)
    (hbounded : ¬ f.Unbounded) (calls : List AllocateCall) :
    ∃ f' answers, allocateAll s 1 f calls = some (f', answers) ∧
      SoundAnswers f.mSize (s.requestPieceNum * s.pieceSize) f.covered answers := by
  induction calls generalizing f with
  | nil => exact ⟨f, [], rfl, by simp, by simp, by simp, List.Pairwise.nil, by simp⟩
  | cons c calls ih =>
    obtain ⟨f', a, hcall, hsane', hsize', hallocates, hshort⟩ := allocateRange_spec hpiece hnum hproduct hsane hsize 0 c
    have hbounded' : ¬ f'.Unbounded := by
      rintro ⟨hlast, hempty⟩
      apply hbounded
      rw [hallocates.covered, union_empty_iff] at hempty
      exact ⟨hsize' ▸ hlast, hempty.1⟩
    obtain ⟨f'', answers, hrest, hsound⟩ := ih hsane' (by rw [hsize']; exact hsize) hbounded'
    rw [hsize'] at hsound
    refine ⟨f'', a :: answers, ?_, hsound.cons hallocates (hshort hbounded)⟩
    rw [allocateAll, hcall]
    show (allocateAll s 1 f' calls >>= _) = _
    rw [hrest]
    rfl

/-- The calls get free ranges that do not overlap, as long as there is room, unless an empty field has the largest size of its type. -/
theorem allocatesWell_iff {f : Rangefield} (hsane : f.Sane) (hsize : 0 < f.mSize ∧ f.mSize ≤ 9223372036854775807) :
    AllocatesWell s f ↔ ¬ f.Unbounded := by
  constructor
  · rintro hwell ⟨hlast, hempty⟩
    obtain ⟨fuel, f', answers, hrun, hsound⟩ := hwell [⟨0, fun _ => false⟩]
    cases fuel with
    | zero => exact absurd hrun (by simp [allocateAll, allocateRange])
    | succ fuel =>
      obtain ⟨hmax, hpos, hbelow⟩ := RequestSettings.maxRequestBytes_spec hpiece hnum hproduct
      obtain ⟨f'', hfirst⟩ := allocateRange_of_unbounded hsane ⟨hlast, hempty⟩ hpos.le fuel
      rw [allocateAll, hfirst] at hrun
      obtain ⟨-, rfl⟩ := Prod.mk.inj (some.inj hrun)
      have hshort := hsound.short 0 9223372036854775806 mem_cons_self
      omega
  · intro hbounded calls
    obtain ⟨f', answers, hrun, hsound⟩ := allocateAll_spec hpiece hnum hproduct hsane hsize hbounded calls
    exact ⟨1, f', answers, hrun, hsound⟩

end Limits

theorem allocatesWell_small : AllocatesWell ⟨10, 16384⟩ (Rangefield.new 1000000) := by
  apply (allocatesWell_iff (by decide) (by decide) (by decide) (Rangefield.sane_new 1000000) (by decide)).mpr
  rintro ⟨hsize, -⟩
  exact absurd hsize (by decide)

/-- The first connection of an empty download of 2^63 - 1 bytes gets the whole file, not a request of 16384 bytes. -/
theorem first_request_unlimited :
    (allocateAll ⟨1, 16384⟩ 1 (Rangefield.new 9223372036854775807) [⟨0, fun _ => false⟩]).map Prod.snd =
        some [some (0, 9223372036854775806)] ∧
      ¬ SoundAnswers 9223372036854775807 (1 * 16384) (Rangefield.new 9223372036854775807).covered
        [some (0, 9223372036854775806)] := by
  refine ⟨by decide +kernel, ?_⟩
  intro hsound
  exact absurd (hsound.short 0 9223372036854775806 mem_cons_self) (by decide)

end Http

end Avbot
