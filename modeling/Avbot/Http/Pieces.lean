import Avbot.Http.Rangefields

/-!
# The pieces of a field

`range_to_bitfield` walks over the pieces and the ranges together and leaves at most one range behind for every piece. It overlooks a piece if more ranges end before it than there are pieces to leave them; the ranges that `bitfield_to_range` makes never come so close. The products of an index and the piece size are taken as they are.
-/

namespace Avbot.Http.Rangefield

open List Option RangeMap Int

/-- The range has the whole piece. -/
def Fills (size pieceSize : Int) (i : Nat) (g : Int × Int) : Prop :=
  i * pieceSize ≥ g.1 ∧ min ((i + 1) * pieceSize) size ≤ g.2

/-- At this piece the iterator does not stay on the range. -/
def Leaves (size pieceSize : Int) (i : Nat) (g : Int × Int) : Prop :=
  ¬ Fills size pieceSize i g ∧ min ((i + 1) * pieceSize) size ≥ g.2

instance (size pieceSize : Int) (i : Nat) (g : Int × Int) : Decidable (Fills size pieceSize i g) :=
  inferInstanceAs (Decidable (_ ∧ _))

instance (size pieceSize : Int) (i : Nat) (g : Int × Int) : Decidable (Leaves size pieceSize i g) :=
  inferInstanceAs (Decidable (_ ∧ _))

/-- On the way from piece `i` to piece `j` there is a piece to leave each of these ranges but one, also if the way begins later. -/
def Passable (size pieceSize : Int) (ranges : List (Int × Int)) (i j : Nat) : Prop :=
  i + ranges.length ≤ j + 1 ∧
    ∀ e, i ≤ e → e < j → e + ranges.countP (fun g => ¬ Leaves size pieceSize e g) ≤ j

section Walk

variable {size p : Int} {it : List (Int × Int)} {i j n : Nat} {g : Int × Int}

theorem right_le_left (hpos : 0 < p) (hlt : i < j) : min ((i + 1) * p) size ≤ j * p :=
  (min_le_left _ _).trans (Int.mul_le_mul_of_nonneg_right (by omega) hpos.le)

/-- Once a range is left it does not matter for later pieces. -/
theorem Leaves.later (h : Leaves size p i g) (hpos : 0 < p) (hlt : i < j)
    (hroom : j * p < min ((j + 1) * p) size) : ¬ Fills size p j g ∧ Leaves size p j g := by
  have hnext : min ((i + 1) * p) size ≤ j * p := right_le_left hpos hlt
  unfold Leaves Fills at *
  omega

theorem checkPiece_fst (hapart : it.Pairwise fun g h => g.2 < h.1) (hle : ∀ g ∈ it, 0 ≤ g.1 ∧ g.1 ≤ g.2) :
    let r := checkPiece (pieceLeft id p i) (pieceRight id size p i) it
    (r.1 = it ∧ ∀ g ∈ it, ¬ Leaves size p i g) ∨ ∃ g, it = g :: r.1 ∧ Leaves size p i g := by
  cases it with
  | nil => exact .inl ⟨rfl, by simp⟩
  | cons h rest =>
    obtain ⟨hnext, -⟩ := pairwise_cons.mp hapart
    obtain ⟨-, hrest⟩ := forall_mem_cons.mp hle
    simp only [checkPiece, Leaves, Fills, pieceLeft, pieceRight, id_eq]
    grind

theorem checkPiece_snd (hapart : it.Pairwise fun g h => g.2 < h.1) (hle : ∀ g ∈ it, 0 ≤ g.1 ∧ g.1 ≤ g.2)
    (hroom : i * p < min ((i + 1) * p) size ∨ i = 0) :
    (checkPiece (pieceLeft id p i) (pieceRight id size p i) it).2 = true ↔
      ∃ a t b, it = a ++ t :: b ∧ Fills size p i t ∧ a.length ≤ 1 := by
  rw [pieceLeft, pieceRight, id_eq, id_eq]
  constructor
  · intro h
    cases it with
    | nil => exact absurd h (by simp [checkPiece])
    | cons x rest =>
      rw [checkPiece] at h
      split_ifs at h with hfills hend
      · exact ⟨[], x, rest, rfl, hfills, by simp⟩
      · cases rest with
        | nil => exact absurd h (by simp)
        | cons y rest => exact ⟨[x], y, rest, rfl, by simpa [Fills] using h, by simp⟩
  · rintro ⟨a, t, b, rfl, hfills, hlength⟩
    rw [Fills] at hfills
    rcases a with _ | ⟨x, _ | ⟨y, a⟩⟩
    · rw [nil_append, checkPiece, if_pos hfills]
    · have hnext := (pairwise_cons.mp hapart).1 t (by simp)
      have hx := hle x (by simp)
      rw [singleton_append, checkPiece]
      grind
    · simp at hlength

theorem passable_of_stay {a : List (Int × Int)} (hnone : ∀ g ∈ a, ¬ Leaves size p i g) (hij : i < j) :
    Passable size p a i j ↔ Passable size p a (i + 1) j := by
  have hall : a.countP (fun g => ¬ Leaves size p i g) = a.length :=
    countP_eq_length.mpr fun g hg => decide_eq_true (hnone g hg)
  unfold Passable
  grind

theorem passable_of_leaves {a : List (Int × Int)} (hleaves : ∀ e, i ≤ e → e < j → Leaves size p e g) :
    Passable size p (g :: a) i j ↔ Passable size p a (i + 1) j := by
  have hcount : ∀ e, i ≤ e → e < j → (g :: a).countP (fun g => ¬ Leaves size p e g) =
      a.countP (fun g => ¬ Leaves size p e g) :=
    fun e he hlt => countP_cons_of_neg (by simp [hleaves e he hlt])
  have hfirst := countP_le_length (p := fun g => ¬ Leaves size p i g) (l := a)
  rw [Passable, Passable, length_cons]
  grind

theorem markPieces_spec (hpos : 0 < p) (hapart : it.Pairwise fun g h => g.2 < h.1) (hle : ∀ g ∈ it, 0 ≤ g.1 ∧ g.1 ≤ g.2)
    (hroom : ∀ e < i + n, e * p < min ((e + 1) * p) size ∨ e = 0) (hj : j < n) :
    (markPieces id size p it i n)[j]? = some true ↔
      ∃ a t b, it = a ++ t :: b ∧ Fills size p (i + j) t ∧ Passable size p a i (i + j) := by
  induction n generalizing it i j with
  | zero => omega
  | succ n ih =>
    rw [markPieces]
    cases j with
    | zero =>
      rw [getElem?_cons_zero, some.injEq, checkPiece_snd hapart hle (hroom i (by omega))]
      have hpassable : ∀ a, Passable size p a i i ↔ a.length ≤ 1 := fun a =>
        ⟨fun h => by have := h.1; omega, fun h => ⟨by omega, fun e he hlt => by omega⟩⟩
      simp only [add_zero, hpassable]
    | succ j =>
      have hlater : ∀ {e}, i < e → e ≤ i + 1 + j → e * p < min ((e + 1) * p) size :=
        fun {e} hi he => (hroom e (by omega)).resolve_right (by omega)
      rw [getElem?_cons_succ, show i + (j + 1) = i + 1 + j by omega]
      rcases @checkPiece_fst size p it i hapart hle with ⟨hstay, hnone⟩ | ⟨g, hit, hleaves⟩
      · rw [hstay, ih hapart hle (fun e he => hroom e (by omega)) (by omega)]
        refine exists_congr fun a => exists_congr fun t => exists_congr fun b => and_congr_right fun hsplit => ?_
        rw [passable_of_stay (fun g hg => hnone g (by simp [hsplit, hg])) (by omega)]
      · generalize checkPiece (pieceLeft id p i) (pieceRight id size p i) it = r at hit
        subst hit
        rw [ih (pairwise_cons.mp hapart).2 (forall_mem_cons.mp hle).2 (fun e he => hroom e (by omega)) (by omega)]
        have hway : ∀ e, i ≤ e → e < i + 1 + j → Leaves size p e g := by
          intro e he hlt
          rcases he.eq_or_lt with rfl | he
          · exact hleaves
          · exact (hleaves.later hpos he (hlater he hlt.le)).2
        constructor
        · rintro ⟨a, t, b, hsplit, hfills, hpassable⟩
          exact ⟨g :: a, t, b, by rw [hsplit, cons_append], hfills, (passable_of_leaves hway).mpr hpassable⟩
        · rintro ⟨a, t, b, hsplit, hfills, hpassable⟩
          cases a with
          | nil =>
            obtain ⟨rfl, -⟩ := cons.inj hsplit
            exact absurd hfills (hleaves.later hpos (by omega) (hlater (by omega) (le_refl _))).1
          | cons x a =>
            obtain ⟨rfl, hrest⟩ := cons.inj hsplit
            exact ⟨a, t, b, hrest, hfills, (passable_of_leaves hway).mp hpassable⟩

end Walk

variable {f : Rangefield} {p : Int}

theorem room {size : Int} {e : Nat} (hpos : 0 < p) (he : e < pieceNum size p) :
    e * p < min ((e + 1) * p) size ∨ e = 0 := by
  rcases lt_or_ge size 0 with hsize | hsize
  · have hnonneg := Int.tdiv_nonneg (show 0 ≤ -size by omega) hpos.le
    rw [Int.neg_tdiv] at hnonneg
    rw [pieceNum] at he
    right
    split at he <;> omega
  · exact .inl (lt_min (by rw [add_mul, one_mul]; omega) (mul_lt_of_lt_pieceNum hsize hpos he))

/-- What is asked of `range_to_bitfield`. -/
def MarksRight (f : Rangefield) (p : Int) : Prop :=
  ∀ i : Nat, i < pieceNum f.mSize p →
    ((f.rangeToBits id p)[i]? = some true ↔ piece f.mSize p i ⊆ f.covered)

theorem Fills.piece_subset {i : Nat} {t : Int × Int} (h : Fills f.mSize p i t) (ht : t ∈ f.tidy.mRanges.toList) :
    piece f.mSize p i ⊆ f.covered := by
  rw [← covered_tidy]
  exact fun x hx => ⟨t.1, t.2, mem_toList_iff.mp ht, h.1.trans hx.1, hx.2.trans_le h.2⟩

theorem tidy_padded (h : Reachable f) :
    (f.tidy.mRanges.toList.Pairwise fun i j => i.2 < j.1) ∧ ∀ i ∈ f.tidy.mRanges.toList, 0 ≤ i.1 ∧ i.1 ≤ i.2 := by
  obtain ⟨hsane, hseparated⟩ := h.padded.tidy (le_max_right _ _)
  rw [padded_tidy] at hsane hseparated
  refine ⟨toList_separated hseparated, fun i hi => ?_⟩
  have := hsane.within _ _ (mem_toList_iff.mp hi)
  omega

theorem rangeToBits_spec (h : Reachable f) (hpos : 0 < p) {i : Nat} (hi : i < pieceNum f.mSize p) :
    (f.rangeToBits id p)[i]? = some true ↔ ∃ a t b, f.tidy.mRanges.toList = a ++ t :: b ∧
      Fills f.mSize p i t ∧ Passable f.mSize p a 0 i := by
  obtain ⟨hapart, hle⟩ := tidy_padded h
  have hspec := @markPieces_spec f.mSize p _ 0 i (pieceNum f.mSize p).toNat hpos hapart hle
    (fun e he => room hpos (by omega)) (by omega)
  rwa [zero_add] at hspec

/-- A piece that is there is marked if the ranges before it do not come too close. -/
theorem marksRight_iff (h : Reachable f) (hpos : 0 < p) :
    f.MarksRight p ↔ ∀ i : Nat, i < pieceNum f.mSize p → piece f.mSize p i ⊆ f.covered →
      ∃ a t b, f.tidy.mRanges.toList = a ++ t :: b ∧ Fills f.mSize p i t ∧ Passable f.mSize p a 0 i := by
  refine forall_congr' fun i => forall_congr' fun hi => ?_
  rw [rangeToBits_spec h hpos hi]
  refine ⟨fun hright => hright.mpr, fun hway => ⟨?_, hway⟩⟩
  rintro ⟨a, t, b, hsplit, hfills, -⟩
  exact hfills.piece_subset (by simp [hsplit])

/-- Of three pieces the second one is there only in part. -/
theorem marksRight_three :
    let f := (((new 30).update 0 12).1.update 20 30).1
    f.MarksRight 10 ∧ f.rangeToBits id 10 = [true, false, true] := by
  refine ⟨(marksRight_iff (((Reachable.new 30).call (.update 0 12)).call (.update 20 30)) (by decide)).mpr ?_, by decide⟩
  intro i hi hpiece
  replace hi : (i : Int) < 3 := hi
  obtain rfl | rfl | rfl : i = 0 ∨ i = 1 ∨ i = 2 := by omega
  · exact ⟨[], (0, 12), [(20, 30)], by decide, by decide, by simp, fun e _ he => absurd he (by omega)⟩
  · exact absurd (hpiece (show (15 : Int) ∈ _ from ⟨by decide, by decide⟩)) (by decide)
  · refine ⟨[(0, 12)], (20, 30), [], by decide, by decide, by simp, fun e _ he => ?_⟩
    have := countP_le_length (p := fun g => ¬ Leaves 30 10 e g) (l := [((0 : Int), (12 : Int))])
    rw [length_singleton] at this
    exact (Nat.add_le_add_left this e).trans he

/-- Three ranges end in the first of two pieces, so the iterator has not come to the second. -/
theorem not_marksRight_crowded :
    let f := (((((new 20).update 0 1).1.update 2 3).1.update 4 5).1.update 10 20).1
    (f.rangeToBits id 10)[1]? = some false ∧ piece 20 10 1 ⊆ f.covered :=
  ⟨by decide, fun _ hx => ⟨10, 20, by decide, hx⟩⟩

/-! ### The ranges of a bit field -/

section Aligned

variable {size : Int} {ranges a b : List (Int × Int)} {t : Int × Int} {bits : List Bool} {e i j : Nat}

theorem countP_le_of_aligned {P : Int × Int → Bool} (hpos : 0 < p) (hsorted : ranges.Pairwise fun g h => g.2 < h.2)
    (hbounds : ∀ g ∈ ranges, P g = true → ∃ k : Nat, g.2 = (k + 1) * p ∧ e ≤ k ∧ k < j) :
    ranges.countP P ≤ j - e := by
  induction ranges generalizing e with
  | nil => simp
  | cons g ranges ih =>
    obtain ⟨hg, htail⟩ := pairwise_cons.mp hsorted
    obtain ⟨hfirst, hrest⟩ := forall_mem_cons.mp hbounds
    rw [countP_cons]
    split
    · rename_i hP
      obtain ⟨k, hk, hbounds⟩ := hfirst hP
      have := ih (e := e + 1) htail fun h hh hPh => by
        obtain ⟨l, hl, hbounds'⟩ := hrest h hh hPh
        have hlt := hg h hh
        rw [hk, hl] at hlt
        have := Int.lt_of_mul_lt_mul_right hlt hpos.le
        exact ⟨l, hl, by omega, hbounds'.2⟩
      omega
    · exact ih htail hrest

/-- If every range ends with a piece, the iterator is never behind. -/
theorem passable_of_aligned (hpos : 0 < p) (hsorted : a.Pairwise fun g h => g.2 < h.2) (hj : j * p < size)
    (haligned : ∀ g ∈ a, ∃ k : Nat, g.2 = (k + 1) * p ∧ k < j) : Passable size p a 0 j := by
  have hlength := countP_le_of_aligned (P := fun _ => true) (e := 0) hpos hsorted fun g hg _ => by
    obtain ⟨k, hk, hlt⟩ := haligned g hg
    exact ⟨k, hk, k.zero_le, hlt⟩
  rw [countP_true] at hlength
  refine ⟨by omega, fun e _ he => ?_⟩
  have hcount := countP_le_of_aligned (P := fun g => ¬ Leaves size p e g) (e := e) hpos hsorted fun g hg hstays => by
    obtain ⟨k, hk, hlt⟩ := haligned g hg
    refine ⟨k, hk, ?_, hlt⟩
    have hright : min ((e + 1) * p) size = (e + 1) * p :=
      min_eq_left ((Int.mul_le_mul_of_nonneg_right (by omega) hpos.le).trans hj.le)
    have hle : (e + 1) * p ≤ (k + 1) * p := by
      rw [← hk, ← hright]
      by_contra hbefore
      exact of_decide_eq_true hstays ⟨fun hfills => hbefore hfills.2, (not_le.mp hbefore).le⟩
    have := Int.le_of_mul_le_mul_right hle hpos
    omega
  omega

theorem eq_of_mem_piece (hpos : 0 < p) (hi : i * p ∈ piece size p j) : i = j := by
  have hle := Int.le_of_mul_le_mul_right hi.1 hpos
  have hlt := Int.lt_of_mul_lt_mul_right (hi.2.trans_le (min_le_left _ _)) hpos.le
  omega

theorem marked_of_pieces (h : Reachable f) (hneed : f.mNeedMerge = true) (hpos : 0 < p) (hcovered : f.covered = pieces f.mSize p bits)
    (hi : i < pieceNum f.mSize p) (hroom : i * p < min ((i + 1) * p) f.mSize) :
    (f.rangeToBits id p)[i]? = some true ↔ bits[i]? = some true := by
  have hsize : i * p < f.mSize := (lt_min_iff.mp hroom).2
  have hnonneg : 0 ≤ f.mSize := (Int.mul_nonneg (Int.natCast_nonneg _) hpos.le).trans hsize.le
  have hsane := h.sane hnonneg
  rw [rangeToBits_spec h hpos hi]
  constructor
  · rintro ⟨a, t, b, hsplit, hfills, -⟩
    have hmem := hfills.piece_subset (by simp [hsplit]) ⟨le_refl _, hroom⟩
    rw [hcovered] at hmem
    obtain ⟨j, hj, hx⟩ := hmem
    rwa [eq_of_mem_piece hpos hx]
  · intro hbit
    have hpiece : piece f.mSize p i ⊆ f.covered := hcovered ▸ fun x hx => ⟨i, hbit, hx⟩
    obtain ⟨-, hseparated⟩ := hsane.tidy hnonneg
    obtain ⟨k, v, hget, hk, hv⟩ := hseparated.exists_range hroom (hpiece.trans_eq f.covered_tidy.symm)
    obtain ⟨a, b, hsplit⟩ := append_of_mem (mem_toList_iff.mpr hget)
    have hproper : ∀ g ∈ a, g.1 < g.2 := by
      rw [tidy, hneed, if_pos rfl] at hsplit
      rcases merge_proper hsane.within with hproper | ⟨hempty, -⟩
      · exact fun g hg => hproper g (hsplit ▸ mem_append_left _ hg)
      · exact (hempty.subset (hpiece ⟨le_refl _, hroom⟩)).elim
    have hapart := pairwise_append.mp (hsplit ▸ toList_separated hseparated)
    refine ⟨a, (k, v), b, hsplit, ⟨hk, hv⟩, passable_of_aligned hpos ?_ hsize fun g hg => ?_⟩
    · exact hapart.1.imp_of_mem fun _ hh hlt => hlt.trans (hproper _ hh)
    · -- the last byte of the range is in a marked piece, and the byte behind it is not
      have hgi : g.2 < i * p := (hapart.2.2 g hg (k, v) mem_cons_self).trans_le hk
      have hget := mem_toList_iff.mp (hsplit ▸ mem_append_left _ hg)
      have hlast : g.2 - 1 ∈ f.tidy.covered := ⟨g.1, g.2, hget, by have := hproper g hg; omega, by omega⟩
      have hbehind : g.2 ∉ f.tidy.covered := hseparated.end_not_covered hget (hproper g hg).le
      rw [covered_tidy, hcovered] at hlast hbehind
      obtain ⟨j, hj, hlow, hhigh⟩ := hlast
      have heq : g.2 = (j + 1) * p := by
        by_contra hne
        exact hbehind ⟨j, hj, by omega, by omega⟩
      refine ⟨j, heq, ?_⟩
      rw [heq] at hgi
      have := Int.lt_of_mul_lt_mul_right hgi hpos.le
      omega

/-- `range_to_bitfield` gives back the bits from which `bitfield_to_range` has made the field. -/
theorem rangeToBits_bitsToRange (f : Rangefield) (hsize : 0 < f.mSize) (hpos : 0 < p) (hlength : bits.length = pieceNum f.mSize p) :
    (f.bitsToRange id bits p).rangeToBits id p = bits ∧ (f.bitsToRange id bits p).covered = pieces f.mSize p bits := by
  have hroom : ∀ i < bits.length, i * p < min ((i + 1) * p) f.mSize := by
    intro i hi
    rcases @room p f.mSize i hpos (by omega) with hroom | rfl
    · exact hroom
    · simpa using ⟨hpos, hsize⟩
  have hassert : ∀ i < bits.length, i * p < f.mSize := fun i hi => (lt_min_iff.mp (hroom i hi)).2
  have hcovered : (f.bitsToRange id bits p).covered = pieces f.mSize p bits := (readBits_exact hpos hassert).covered_close
  have hreach : Reachable (f.bitsToRange id bits p) :=
    @Reachable.perform _ _ (.bitfieldToRange bits p) (.new f.mSize) ⟨hpos, hassert⟩ rfl
  refine ⟨ext_getElem ?_ fun i hi hi' => ?_, hcovered⟩
  · rw [rangeToBits, length_markPieces]
    show (pieceNum f.mSize p).toNat = _
    omega
  · have hbit := marked_of_pieces hreach rfl hpos hcovered (show i < pieceNum f.mSize p by omega) (hroom i hi')
    rw [getElem?_eq_getElem hi, getElem?_eq_getElem hi', some.injEq, some.injEq] at hbit
    exact Bool.eq_iff_iff.mpr hbit

theorem rangeToBits_bitsToRange_three :
    ((new 25).bitsToRange id [true, false, true] 10).rangeToBits id 10 = [true, false, true] :=
  (rangeToBits_bitsToRange (new 25) (by decide) (by decide) (by decide)).1

end Aligned

end Avbot.Http.Rangefield
