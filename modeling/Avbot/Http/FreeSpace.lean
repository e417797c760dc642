import Avbot.Http.Rangefield

/-!
# The ranges of a file and its gaps

`inverse_impl` collects the gaps between the merged ranges of a field, and `out_space` chooses one of them: the part of a gap behind an offset, else the next gap, else the first.
-/

namespace Avbot

open List Set

namespace Http

namespace Rangefield

structure Inverting where
  point : Int
  reverseMap : RangeMap

def invertFirst (i : Int × Int) : Inverting where
  point := i.2
  reverseMap := if i.1 ≠ 0 then (∅ : RangeMap).insertIfNew 0 i.1 else ∅

def invertStep (s : Inverting) (i : Int × Int) : Inverting where
  point := i.2
  reverseMap := s.reverseMap.insertIfNew s.point i.1

def invertLoop : List (Int × Int) → Inverting
  | [] => ⟨0, ∅⟩
  | i :: rest => rest.foldl invertStep (invertFirst i)

def inverseImpl (f : Rangefield) : RangeMap :=
  let s := invertLoop f.mRanges.toList
  if s.point ≠ f.mSize ∨ f.mRanges.toList = [] then s.reverseMap.insertIfNew s.point f.mSize else s.reverseMap

def outSpaceLoop (offset : Int) : List (Int × Int) → Option (Int × Int)
  | [] => none
  | i :: rest =>
    if offset ≥ i.1 then
      if offset < i.2 then some (offset, i.2) else outSpaceLoop offset rest
    else some i

def outSpace (f : Rangefield) (offset : Int) : Option (Int × Int) :=
  (outSpaceLoop offset f.inverseImpl.toList).or f.inverseImpl.toList.head?

end Rangefield

namespace RangeMap

def Within (size : Int) (m : RangeMap) : Prop :=
  ∀ k v : Int, m[k]? = some v → 0 ≤ k ∧ (k < v ∨ (k = 0 ∧ v = 0)) ∧ v ≤ size

def Separated (m : RangeMap) : Prop :=
  ∀ k v k' v' : Int, m[k]? = some v → m[k']? = some v' → k < k' → v < k'

variable {m : RangeMap} {left right size : Int}

theorem getElem?_insertIfNew_cases {k v : Int} (h : (m.insertIfNew left right)[k]? = some v) :
    (k = left ∧ v = right) ∨ m[k]? = some v := by
  rw [Std.ExtTreeMap.getElem?_insertIfNew] at h
  split at h
  · rename_i hnew
    exact .inl ⟨(Std.LawfulEqCmp.eq_of_compare hnew.1).symm, (Option.some.inj h).symm⟩
  · exact .inr h

theorem Within.insertIfNew (h : m.Within size) (hleft : 0 ≤ left)
    (hlt : left < right ∨ (left = 0 ∧ right = 0)) (hright : right ≤ size) : Within size (m.insertIfNew left right) := by
  intro k v hget
  obtain ⟨rfl, rfl⟩ | hold := getElem?_insertIfNew_cases hget
  · exact ⟨hleft, hlt, hright⟩
  · exact h k v hold

theorem Within.covered_subset (h : m.Within size) : m.covered ⊆ Set.Ico 0 size := by
  rintro x ⟨l, r, hget, hx⟩
  obtain ⟨hlow, -, hhigh⟩ := h l r hget
  exact ⟨hlow.trans hx.1, hx.2.trans_le hhigh⟩

theorem Separated.insertIfNew (h : m.Separated) (hwithin : m.Within size)
    (hbelow : ∀ k v : Int, m[k]? = some v → v < left) : Separated (m.insertIfNew left right) := by
  intro k v k' v' hget hget' hlt
  obtain ⟨rfl, rfl⟩ | hold := getElem?_insertIfNew_cases hget
  · obtain ⟨rfl, rfl⟩ | hold' := getElem?_insertIfNew_cases hget'
    · exact absurd hlt (lt_irrefl _)
    · have := hbelow k' v' hold'
      have := (hwithin k' v' hold').2.1
      omega
  · obtain ⟨rfl, rfl⟩ | hold' := getElem?_insertIfNew_cases hget'
    · exact hbelow k v hold
    · exact h k v k' v' hold hold' hlt

theorem Separated.end_not_covered (h : m.Separated) (hget : m[left]? = some right) (hle : left ≤ right) :
    right ∉ m.covered := by
  rintro ⟨k, v, hget', hk, hv⟩
  rcases lt_trichotomy left k with hlater | rfl | hearlier
  · exact absurd (h left right k v hget hget' hlater) (not_lt.mpr hk)
  · exact absurd (Option.some.inj (hget.symm.trans hget')) hv.ne
  · have := h k v left right hget' hget hearlier
    omega

theorem Separated.exists_range (h : m.Separated) (hlt : left < right) (hsub : Set.Ico left right ⊆ m.covered) :
    ∃ k v : Int, m[k]? = some v ∧ k ≤ left ∧ right ≤ v := by
  obtain ⟨k, v, hget, hk, hv⟩ := hsub (show left ∈ Set.Ico left right from ⟨le_refl _, hlt⟩)
  refine ⟨k, v, hget, hk, not_lt.mp fun hshort => ?_⟩
  exact h.end_not_covered hget (hk.trans hv.le) (hsub ⟨hv.le, hshort⟩)

def starts (m : RangeMap) : Set Int := { k | ∃ v : Int, m[k]? = some v ∧ k < v }

theorem starts_subset_covered (m : RangeMap) : m.starts ⊆ m.covered := by
  rintro k ⟨v, hget, hlt⟩
  exact ⟨k, v, hget, le_refl k, hlt⟩

theorem toList_of_forall_eq {i : Int × Int} (hall : ∀ j ∈ m.toList, j = i) : m.toList = [] ∨ m.toList = [i] := by
  have hsorted := m.toList_sorted
  cases hlist : m.toList with
  | nil => exact .inl rfl
  | cons j rest =>
    rw [hlist] at hall hsorted
    obtain rfl := hall j mem_cons_self
    obtain rfl : rest = [] := by
      apply eq_nil_iff_forall_not_mem.mpr
      intro k hk
      have hlt := (pairwise_cons.mp hsorted).1 k hk
      rw [hall k (mem_cons_of_mem _ hk)] at hlt
      exact lt_irrefl _ hlt
    exact .inr rfl

end RangeMap

namespace Rangefield

/-- What the functions of the class keep of their ranges, as long as all ranges that are put in lie in the file. -/
structure Sane (f : Rangefield) : Prop where
  within : f.mRanges.Within f.mSize
  separated : f.mNeedMerge = false → f.mRanges.Separated

theorem sane_new (size : Int) : (new size).Sane :=
  ⟨by intro k v; simp [new], by intro _ k v; simp [new]⟩

/-- What the loop of `merge` keeps: finished ranges, and right of them the growing one. -/
structure Merging.Apart (size : Int) (s : Merging) : Prop where
  within : s.result.Within size
  separated : s.result.Separated
  below : ∀ k v : Int, s.result[k]? = some v → v < s.maxValue.1
  growing : 0 ≤ s.maxValue.1 ∧ (s.maxValue.1 < s.maxValue.2 ∨ (s.maxValue.1 = 0 ∧ s.maxValue.2 = 0)) ∧ s.maxValue.2 ≤ size

variable {size left right offset : Int} {i r : Int × Int} {rest ranges : List (Int × Int)}
    {f : Rangefield} {starts passed : Set Int} {s : Inverting}

theorem Merging.Apart.finish {s : Merging} (h : s.Apart size) : s.finish.Within size ∧ s.finish.Separated :=
  ⟨h.within.insertIfNew h.growing.1 h.growing.2.1 h.growing.2.2, h.separated.insertIfNew h.within h.below⟩

theorem Merging.Apart.mergeStep {s : Merging} (h : s.Apart size)
    (hready : s.Ready (i :: rest)) (hi : 0 ≤ i.1 ∧ (i.1 < i.2 ∨ (i.1 = 0 ∧ i.2 = 0)) ∧ i.2 ≤ size) :
    (Rangefield.mergeStep s i).Apart size := by
  obtain ⟨hwithin, hseparated, hbelow, hgrowing⟩ := h
  have hstart : (s.maxValue.1 = 0 ∧ s.maxValue.2 = 0) ∨ s.maxValue.1 < i.1 := by
    rcases hready with ⟨hmax, -⟩ | ⟨-, hright⟩
    · exact .inl (by rw [hmax]; exact ⟨rfl, rfl⟩)
    · exact .inr (hright i mem_cons_self)
  rw [Rangefield.mergeStep]
  split_ifs with hinside hhead hgrow hnext hkept
  · exact ⟨hwithin, hseparated, hbelow, hgrowing⟩
  · exact absurd hinside (by omega)
  · refine ⟨hwithin, hseparated, hbelow, hgrowing.1, .inl ?_, hi.2.2⟩
    show s.maxValue.1 < i.2
    omega
  · -- the growing range is finished, and the next one begins right of it
    have hlt : s.maxValue.1 < i.1 := by omega
    refine ⟨hwithin.insertIfNew hgrowing.1 hgrowing.2.1 hgrowing.2.2, hseparated.insertIfNew hwithin hbelow, ?_, hi⟩
    intro k v hget
    show v < i.1
    obtain ⟨rfl, rfl⟩ | hold := RangeMap.getElem?_insertIfNew_cases hget
    · omega
    · exact (hbelow k v hold).trans hlt
  · refine ⟨hwithin, hseparated, ?_, hi⟩
    intro k v hget
    have := hbelow k v hget
    have := hwithin k v hget
    omega
  · exact ⟨hwithin, hseparated, hbelow, hgrowing⟩

theorem Merging.Apart.foldl {s : Merging} (h : s.Apart size) (hready : s.Ready rest)
    (hsorted : rest.Pairwise fun i j => i.1 < j.1)
    (hrest : ∀ i ∈ rest, 0 ≤ i.1 ∧ (i.1 < i.2 ∨ (i.1 = 0 ∧ i.2 = 0)) ∧ i.2 ≤ size) :
    (rest.foldl Rangefield.mergeStep s).Apart size := by
  induction rest generalizing s with
  | nil => exact h
  | cons i rest ih =>
    obtain ⟨hi, htail⟩ := pairwise_cons.mp hsorted
    rw [foldl_cons]
    apply ih (h.mergeStep hready (hrest i mem_cons_self)) (mergeStep_spec hready hi).1 htail
    exact fun j hj => hrest j (mem_cons_of_mem _ hj)

theorem Sane.merge (h : f.Sane) (hsize : 0 ≤ f.mSize) : f.merge.mRanges.Within f.mSize ∧ f.merge.mRanges.Separated := by
  have hstart : Merging.Apart f.mSize ⟨∅, (0, 0)⟩ := by
    refine ⟨?_, ?_, ?_, le_refl 0, .inr ⟨rfl, rfl⟩, hsize⟩ <;> intro k v <;> simp
  apply (hstart.foldl (.inl ⟨rfl, rfl⟩) f.mRanges.toList_sorted ?_).finish
  intro i hi
  exact h.within i.1 i.2 (RangeMap.mem_toList_iff.mp hi)

theorem Sane.tidy (h : f.Sane) (hsize : 0 ≤ f.mSize) : f.tidy.Sane ∧ f.tidy.mRanges.Separated := by
  have hranges : f.tidy.mRanges.Within f.mSize ∧ f.tidy.mRanges.Separated := by
    rw [Rangefield.tidy]
    split
    · exact h.merge hsize
    · rename_i hneed
      exact ⟨h.within, h.separated (Bool.eq_false_iff.mpr hneed)⟩
  exact ⟨⟨by rw [mSize_tidy]; exact hranges.1, fun _ => hranges.2⟩, hranges.2⟩

theorem Sane.update (h : f.Sane) (haccepts : Accepts f.mSize left right) : (f.update left right).1.Sane := by
  rw [Rangefield.update, if_pos haccepts]
  refine ⟨?_, fun hneed => Bool.noConfusion hneed⟩
  intro k v hget
  replace hget : (f.mRanges.insert left right)[k]? = some v := hget
  rw [Std.ExtTreeMap.getElem?_insert] at hget
  unfold Accepts at haccepts
  split at hget
  · rename_i heq
    obtain rfl := Std.LawfulEqCmp.eq_of_compare heq
    obtain rfl := Option.some.inj hget
    show 0 ≤ left ∧ _ ∧ right ≤ f.mSize
    omega
  · exact h.within k v hget

theorem Sane.call (h : f.Sane) (hsize : 0 ≤ f.mSize) (c : Call) : (f.call c).Sane ∧ (f.call c).mSize = f.mSize := by
  cases c with
  | update left right =>
    refine ⟨?_, mSize_update f left right⟩
    by_cases haccepts : Accepts f.mSize left right
    · exact h.update haccepts
    · rw [Rangefield.call, update_of_not_accepts haccepts]
      exact h
  | _ => exact ⟨(h.tidy hsize).1, mSize_tidy f⟩

/-- Updates and questions keep the ranges of a new field in the file, and once they are merged apart. -/
theorem sane_of_calls (hsize : 0 ≤ size) (calls : List Call) : (calls.foldl call (new size)).Sane := by
  have hkeep : ∀ f : Rangefield, f.Sane → 0 ≤ f.mSize → (calls.foldl call f).Sane := by
    induction calls with
    | nil => exact fun f h _ => h
    | cons c calls ih =>
      intro f h hf
      obtain ⟨hsane, hsame⟩ := h.call hf c
      exact ih _ hsane (by rw [hsame]; exact hf)
  exact hkeep (new size) (sane_new size) hsize

theorem sane_of_calls_two : (([.update 0 3, .isFull] : List Call).foldl call (new 10)).Sane :=
  sane_of_calls (by decide) _

theorem Sane.isFull_of_covered (h : f.Sane) (hsize : 0 < f.mSize) (hfull : Set.Ico 0 f.mSize ⊆ f.covered) :
    f.isFull = true := by
  obtain ⟨hsane, hseparated⟩ := h.tidy hsize.le
  have hwithin := hsane.within
  rw [mSize_tidy] at hwithin
  rw [← covered_tidy] at hfull
  obtain ⟨k, v, hget, hk, hv⟩ := hseparated.exists_range hsize hfull
  obtain rfl : k = 0 := le_antisymm hk (hwithin k v hget).1
  obtain rfl : v = f.mSize := le_antisymm (hwithin 0 v hget).2.2 hv
  have hall : ∀ i ∈ f.tidy.mRanges.toList, i = (0, f.mSize) := by
    intro i hi
    have hgeti := RangeMap.mem_toList_iff.mp hi
    have hbounds := hwithin i.1 i.2 hgeti
    by_cases hzero : i.1 = 0
    · rw [hzero] at hgeti
      exact Prod.ext hzero (Option.some.inj (hgeti.symm.trans hget))
    · have := hseparated 0 f.mSize i.1 i.2 hget hgeti (by omega)
      omega
  have hlist : f.tidy.mRanges.toList = [(0, f.mSize)] := by
    apply (RangeMap.toList_of_forall_eq hall).resolve_left
    intro hnil
    have hmem := RangeMap.mem_toList_iff.mpr hget
    rw [hnil] at hmem
    exact not_mem_nil hmem
  rw [isFull, hlist]
  exact decide_eq_true ⟨rfl, rfl⟩

theorem covered_update_start (haccepts : Accepts f.mSize left right)
    (hstart : left ∉ f.mRanges.starts) : (f.update left right).1.covered = f.covered ∪ Set.Ico left right := by
  rw [covered_update haccepts]
  congr 1
  apply Set.Subset.antisymm (RangeMap.coveredBut_subset _ _)
  rintro x ⟨l, r, hget, hx⟩
  refine ⟨l, r, ?_, hget, hx⟩
  rintro rfl
  exact hstart ⟨r, hget, lt_of_le_of_lt hx.1 hx.2⟩

/-- After the ranges that hold the bytes in `passed`: up to the point every byte is in one of them or in a gap, and not in both. -/
structure Inverting.Exact (passed : Set Int) (s : Inverting) : Prop where
  nonneg : 0 ≤ s.point
  gaps : ∀ k v : Int, s.reverseMap[k]? = some v → 0 ≤ k ∧ k < v ∧ v ≤ s.point
  covered : s.reverseMap.covered = Set.Ico 0 s.point \ passed
  passed : ∀ x ∈ passed, x < s.point

theorem Inverting.Exact.insert (h : s.Exact passed)
    (hright : s.point < right) : (Inverting.mk right (s.reverseMap.insertIfNew s.point right)).Exact passed := by
  have hfresh : s.reverseMap[s.point]? = none := by
    cases hget : s.reverseMap[s.point]? with
    | none => rfl
    | some v =>
      have := h.gaps _ _ hget
      omega
  refine ⟨h.nonneg.trans hright.le, ?_, ?_, ?_⟩
  · intro k v hget
    obtain ⟨rfl, rfl⟩ | hold := RangeMap.getElem?_insertIfNew_cases hget
    · exact ⟨h.nonneg, hright, le_refl v⟩
    · obtain ⟨hk, hlt, hle⟩ := h.gaps k v hold
      exact ⟨hk, hlt, hle.trans hright.le⟩
  · rw [RangeMap.covered_insertIfNew hfresh, h.covered]
    have hnonneg := h.nonneg
    ext x
    simp only [mem_union, mem_sdiff, mem_Ico]
    constructor
    · rintro (⟨hx, hfree⟩ | hx)
      · exact ⟨by omega, hfree⟩
      · exact ⟨by omega, fun hpassed => by have := h.passed x hpassed; omega⟩
    · rintro ⟨hx, hfree⟩
      by_cases hlt : x < s.point
      · exact .inl ⟨⟨hx.1, hlt⟩, hfree⟩
      · exact .inr ⟨not_lt.mp hlt, hx.2⟩
  · intro x hx
    exact (h.passed x hx).trans hright

theorem Inverting.Exact.pass (h : s.Exact passed)
    (hright : s.point ≤ right) : (Inverting.mk right s.reverseMap).Exact (passed ∪ Set.Ico s.point right) := by
  refine ⟨h.nonneg.trans hright, ?_, ?_, ?_⟩
  · intro k v hget
    obtain ⟨hk, hlt, hle⟩ := h.gaps k v hget
    exact ⟨hk, hlt, hle.trans hright⟩
  · rw [h.covered]
    ext x
    simp only [mem_union, mem_sdiff, mem_Ico, not_or]
    constructor
    · rintro ⟨hx, hfree⟩
      exact ⟨by omega, hfree, by omega⟩
    · rintro ⟨hx, hfree, hnot⟩
      exact ⟨by omega, hfree⟩
  · rintro x (hx | hx)
    · exact (h.passed x hx).trans_le hright
    · exact hx.2

theorem Inverting.Exact.invertFirst (hi : 0 ≤ i.1 ∧ i.1 ≤ i.2) :
    (Rangefield.invertFirst i).Exact (Set.Ico i.1 i.2) := by
  have hstart : (Inverting.mk 0 ∅).Exact ∅ := by
    refine ⟨le_refl 0, by simp, by simp [RangeMap.covered_empty], by simp⟩
  rw [Rangefield.invertFirst]
  by_cases hzero : i.1 = 0
  · have hpass := hstart.pass (show 0 ≤ i.2 by omega)
    rw [empty_union] at hpass
    simpa [hzero] using hpass
  · have hpass := (hstart.insert (show 0 < i.1 by omega)).pass hi.2
    rw [empty_union] at hpass
    simpa [hzero] using hpass

theorem Inverting.Exact.invertStep (h : s.Exact passed)
    (hi : s.point < i.1 ∧ i.1 ≤ i.2) : (invertStep s i).Exact (passed ∪ Set.Ico i.1 i.2) :=
  (h.insert hi.1).pass hi.2

theorem Inverting.Exact.foldl (h : s.Exact passed)
    (hrest : ∀ i ∈ rest, s.point < i.1 ∧ i.1 ≤ i.2) (hapart : rest.Pairwise fun i j => i.2 < j.1) :
    (rest.foldl Rangefield.invertStep s).Exact (passed ∪ { x | ∃ i ∈ rest, x ∈ Set.Ico i.1 i.2 }) := by
  induction rest generalizing passed s with
  | nil => simpa using h
  | cons i rest ih =>
    obtain ⟨hi, htail⟩ := pairwise_cons.mp hapart
    have hstep := ih (h.invertStep (hrest i mem_cons_self))
      (fun j hj => ⟨hi j hj, (hrest j (mem_cons_of_mem _ hj)).2⟩) htail
    have hunion : passed ∪ Set.Ico i.1 i.2 ∪ { x | ∃ j ∈ rest, x ∈ Set.Ico j.1 j.2 } =
        passed ∪ { x | ∃ j ∈ i :: rest, x ∈ Set.Ico j.1 j.2 } := by
      ext x
      simp [or_assoc]
    rw [hunion] at hstep
    exact hstep

theorem invertLoop_exact {m : RangeMap} (hwithin : m.Within size) (hseparated : m.Separated) :
    (invertLoop m.toList).Exact m.covered := by
  have hget : ∀ i ∈ m.toList, m[i.1]? = some i.2 := fun i hi => RangeMap.mem_toList_iff.mp hi
  have hbounds : ∀ i ∈ m.toList, 0 ≤ i.1 ∧ i.1 ≤ i.2 := by
    intro i hi
    have := hwithin i.1 i.2 (hget i hi)
    omega
  have hapart : m.toList.Pairwise fun i j => i.2 < j.1 := by
    apply m.toList_sorted.imp_of_mem
    intro i j hi hj hlt
    exact hseparated i.1 i.2 j.1 j.2 (hget i hi) (hget j hj) hlt
  have hcovered : m.covered = { x | ∃ i ∈ m.toList, x ∈ Set.Ico i.1 i.2 } := by
    ext x
    exact m.mem_covered_iff_toList x
  rw [hcovered]
  cases hlist : m.toList with
  | nil => exact ⟨le_refl 0, by simp [invertLoop], by simp [invertLoop, RangeMap.covered_empty], by simp⟩
  | cons i rest =>
    rw [hlist] at hbounds hapart
    obtain ⟨hi, htail⟩ := pairwise_cons.mp hapart
    have hloop := (Inverting.Exact.invertFirst (hbounds i mem_cons_self)).foldl
      (fun j hj => ⟨hi j hj, (hbounds j (mem_cons_of_mem _ hj)).2⟩) htail
    have hunion : Set.Ico i.1 i.2 ∪ { x | ∃ j ∈ rest, x ∈ Set.Ico j.1 j.2 } =
        { x | ∃ j ∈ i :: rest, x ∈ Set.Ico j.1 j.2 } := by
      ext x
      simp
    rw [hunion] at hloop
    exact hloop

theorem point_foldl_le (hs : s.point ≤ size)
    (hrest : ∀ i ∈ rest, i.2 ≤ size) : (rest.foldl invertStep s).point ≤ size := by
  induction rest generalizing s with
  | nil => exact hs
  | cons i rest ih =>
    have hi : (invertStep s i).point ≤ size := hrest i mem_cons_self
    exact ih hi fun j hj => hrest j (mem_cons_of_mem _ hj)

theorem point_invertLoop_le (hsize : 0 ≤ size)
    (hranges : ∀ i ∈ ranges, i.2 ≤ size) : (invertLoop ranges).point ≤ size := by
  cases ranges with
  | nil => exact hsize
  | cons i rest =>
    have hi : (invertFirst i).point ≤ size := hranges i mem_cons_self
    exact point_foldl_le hi fun j hj => hranges j (mem_cons_of_mem _ hj)

theorem inverseImpl_exact (hwithin : f.mRanges.Within f.mSize) (hseparated : f.mRanges.Separated)
    (hsize : 0 < f.mSize) : (Inverting.mk f.mSize f.inverseImpl).Exact f.covered := by
  have hloop := invertLoop_exact hwithin hseparated
  have hpoint : (invertLoop f.mRanges.toList).point ≤ f.mSize := by
    apply point_invertLoop_le hsize.le
    intro i hi
    exact (hwithin i.1 i.2 (RangeMap.mem_toList_iff.mp hi)).2.2
  rw [inverseImpl]
  split_ifs with hrest
  · apply hloop.insert
    rcases hrest with hne | hnil
    · exact lt_of_le_of_ne hpoint hne
    · rw [hnil]
      exact hsize
  · obtain ⟨heq, -⟩ := not_or.mp hrest
    rw [← not_not.mp heq]
    exact hloop

theorem outSpaceLoop_mem {gaps : List (Int × Int)} (h : outSpaceLoop offset gaps = some r)
    (hgaps : ∀ i ∈ gaps, i.1 < i.2) : ∃ i ∈ gaps, i.1 ≤ r.1 ∧ r.1 < r.2 ∧ r.2 = i.2 := by
  induction gaps with
  | nil => exact absurd h (by simp [outSpaceLoop])
  | cons i rest ih =>
    rw [outSpaceLoop] at h
    split_ifs at h with hge hlt
    · obtain rfl := Option.some.inj h
      exact ⟨i, mem_cons_self, hge, hlt, rfl⟩
    · obtain ⟨j, hj, hbounds⟩ := ih h fun j hj => hgaps j (mem_cons_of_mem _ hj)
      exact ⟨j, mem_cons_of_mem _ hj, hbounds⟩
    · obtain rfl := Option.some.inj h
      exact ⟨i, mem_cons_self, le_refl _, hgaps i mem_cons_self, rfl⟩

theorem outSpace_mem (h : f.outSpace offset = some r) (hgaps : ∀ k v : Int, f.inverseImpl[k]? = some v → k < v) :
    ∃ i ∈ f.inverseImpl.toList, i.1 ≤ r.1 ∧ r.1 < r.2 ∧ r.2 = i.2 := by
  have hlist : ∀ i ∈ f.inverseImpl.toList, i.1 < i.2 :=
    fun i hi => hgaps i.1 i.2 (RangeMap.mem_toList_iff.mp hi)
  rw [outSpace] at h
  rcases Option.or_eq_some_iff.mp h with hloop | ⟨-, hhead⟩
  · exact outSpaceLoop_mem hloop hlist
  · have hmem := mem_of_mem_head? hhead
    exact ⟨r, hmem, le_refl _, hlist r hmem, rfl⟩

theorem outSpace_spec (hwithin : f.mRanges.Within f.mSize) (hseparated : f.mRanges.Separated)
    (hsize : 0 < f.mSize) (offset : Int) :
    (f.outSpace offset = none → Set.Ico 0 f.mSize ⊆ f.covered) ∧
      ∀ l r, f.outSpace offset = some (l, r) → l < r ∧ Set.Ico l r ⊆ Set.Ico 0 f.mSize \ f.covered := by
  have hexact := inverseImpl_exact hwithin hseparated hsize
  constructor
  · intro hnone
    obtain ⟨-, hhead⟩ := Option.or_eq_none_iff.mp hnone
    intro x hx
    by_contra hfree
    have hgap : x ∈ f.inverseImpl.covered := by
      rw [hexact.covered]
      exact ⟨hx, hfree⟩
    obtain ⟨i, hi, -⟩ := (RangeMap.mem_covered_iff_toList _ _).mp hgap
    rw [List.head?_eq_none_iff.mp hhead] at hi
    exact not_mem_nil hi
  · intro l r hsome
    obtain ⟨i, hi, hlow, hlt, hhigh⟩ := outSpace_mem hsome fun k v hget => (hexact.gaps k v hget).2.1
    refine ⟨hlt, ?_⟩
    rw [← hexact.covered]
    intro x hx
    exact (RangeMap.mem_covered_iff_toList _ _).mpr ⟨i, hi, hlow.trans hx.1, hhigh ▸ hx.2⟩

end Rangefield

end Http

end Avbot
