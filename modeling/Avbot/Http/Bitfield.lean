import Avbot.Http.Bencode
import Avbot.Http.Rangefield

/-!
# The bit field of a download

A meta file keeps one bit for every piece of the file, the first one in the highest bit of a byte. `range_to_bitfield` sets the bits of the pieces that lie in one range; `bitfield_to_range` makes one range of every run of set bits. Both compute the bounds of a piece as products of two `int`.
-/

namespace Avbot

open List Set Nat Int

namespace Http

def byteChar (b : BitVec 8) : Char := Char.ofNat b.toNat

def charByte (c : Char) : BitVec 8 := BitVec.ofNat 8 c.toNat

theorem charByte_byteChar (b : BitVec 8) : charByte (byteChar b) = b := by
  have hvalid : b.toNat.isValidChar := .inl (by have := b.isLt; omega)
  rw [charByte, byteChar, Char.ofNat, dif_pos hvalid]
  show BitVec.ofNat 8 b.toNat = b
  rw [BitVec.ofNat_toNat, BitVec.setWidth_eq]

structure Bitfield where
  mBytes : List (BitVec 8)
  mSize : Int

namespace Bitfield

def mask (index : Nat) : BitVec 8 := 0x80#8 >>> (index % 8)

def getBit (bf : Bitfield) (index : Nat) : Bool := bf.mBytes.getD (index / 8) 0 &&& mask index != 0

def setBit (bf : Bitfield) (index : Nat) : Bitfield :=
  { bf with mBytes := bf.mBytes.modify (index / 8) (· ||| mask index) }

/-- `set_bit` for the index of every `true`. -/
def setBits (bf : Bitfield) (bits : List Bool) : Bitfield :=
  bits.zipIdx.foldl (fun bf b => if b.1 then bf.setBit b.2 else bf) bf

def clearTrailingBits (bf : Bitfield) : Except Fault Bitfield :=
  if bf.mSize % 8 = 0 then .ok bf
  else if bf.mSize < 0 then .error .undefined
  else .ok { bf with
    mBytes := bf.mBytes.modify ((bf.mSize + 7) / 8 - 1).toNat (· &&& 0xff#8 <<< (8 - bf.mSize % 8).toNat) }

def byteCount (bits : Int) : Int := (int32 (bits + 7)).tdiv 8

/-- `resize(bits, 0)` of an empty field. The bytes stay as `malloc` gives them if the size turns out negative; nothing reads them then. -/
def resize (bits : Int) : Except Fault Bitfield :=
  clearTrailingBits { mBytes := List.replicate (byteCount bits).toNat 0, mSize := int31 bits }

/-- The constructor from bytes. `memcpy` may read the zero behind the last byte, but not more. -/
def assign (b : Str) (bits : Int) : Except Fault Bitfield :=
  if byteCount bits < 0 ∨ b.length + 1 < byteCount bits then .error .undefined
  else clearTrailingBits
    { mBytes := ((b ++ ['\x00']).take (byteCount bits).toNat).map charByte, mSize := int31 bits }

def bytesSize (bf : Bitfield) : Int := bf.mSize.tdiv 8 + if bf.mSize.tmod 8 = 0 then 0 else 1

/-- `std::string(bf.bytes(), bf.bytes_size())`. A negative number of bytes becomes a length that no string has. -/
def str (bf : Bitfield) : Except Fault Str :=
  if bf.bytesSize < 0 then .error .lengthError
  else if bf.mBytes.length < bf.bytesSize then .error .undefined
  else .ok ((bf.mBytes.take bf.bytesSize.toNat).map byteChar)

/-- What the iterator meets from `begin()` to `end()`, which lies before `begin()` for a negative size. -/
def bits (bf : Bitfield) : Except Fault (List Bool) :=
  if bf.mSize < 0 then .error .undefined else .ok ((List.range bf.mSize.toNat).map bf.getBit)

theorem mask_eq_twoPow (i : Nat) : mask i = BitVec.twoPow 8 (7 - i % 8) := by
  have hall : ∀ k : Fin 8, 0x80#8 >>> k.val = BitVec.twoPow 8 (7 - k.val) := by decide
  exact hall ⟨i % 8, mod_lt _ (by decide)⟩

theorem and_mask_bne_zero (b : BitVec 8) (i : Nat) : (b &&& mask i != 0) = b.getMsbD (i % 8) := by
  have hlt : i % 8 < 8 := mod_lt _ (by decide)
  have hne : BitVec.twoPow 8 (7 - i % 8) ≠ 0 := by
    have hall : ∀ k : Fin 8, BitVec.twoPow 8 k.val ≠ 0 := by decide
    exact hall ⟨7 - i % 8, by omega⟩
  rw [mask_eq_twoPow, BitVec.and_twoPow, BitVec.getMsbD_eq_getLsbD, decide_eq_true hlt, Bool.true_and,
    show 8 - 1 - i % 8 = 7 - i % 8 from rfl]
  cases b.getLsbD (7 - i % 8)
  · rfl
  · rw [if_pos rfl]
    exact bne_iff_ne.mpr hne

theorem getMsbD_mask (i j : Nat) : (mask i).getMsbD (j % 8) = decide (i % 8 = j % 8) := by
  have hall : ∀ j k : Fin 8, (0x80#8 >>> j.val).getMsbD k = decide (j.val = k.val) := by decide
  exact hall ⟨i % 8, mod_lt _ (by decide)⟩ ⟨j % 8, mod_lt _ (by decide)⟩

theorem getBit_eq_getMsbD (bf : Bitfield) (i : Nat) : bf.getBit i = (bf.mBytes.getD (i / 8) 0).getMsbD (i % 8) :=
  and_mask_bne_zero _ i

theorem getD_modify {bytes : List (BitVec 8)} {k : Nat} (hk : k < bytes.length) (g : BitVec 8 → BitVec 8) (j : Nat) :
    (bytes.modify k g).getD j 0 = if k = j then g (bytes.getD j 0) else bytes.getD j 0 := by
  rw [getD_eq_getElem?_getD, getD_eq_getElem?_getD, getElem?_modify]
  by_cases hj : k = j
  · subst hj
    simp [hk]
  · simp [hj]

theorem getBit_setBit (bf : Bitfield) {i : Nat} (hi : i / 8 < bf.mBytes.length) (j : Nat) :
    (bf.setBit i).getBit j = (decide (i = j) || bf.getBit j) := by
  rw [getBit_eq_getMsbD, getBit_eq_getMsbD, setBit, getD_modify hi]
  by_cases hbyte : i / 8 = j / 8
  · have hbit : decide (i = j) = decide (i % 8 = j % 8) := by
      apply decide_eq_decide.mpr
      omega
    rw [if_pos hbyte, BitVec.getMsbD_or, getMsbD_mask, hbit, Bool.or_comm]
  · have hne : i ≠ j := by
      intro heq
      exact hbyte (heq ▸ rfl)
    rw [if_neg hbyte, decide_eq_false hne, Bool.false_or]

/-- A field as `resize` makes it: as many bytes as the bits need. -/
structure Packed (bf : Bitfield) : Prop where
  nonneg : 0 ≤ bf.mSize
  lt : bf.mSize < 1073741824
  length : bf.mBytes.length = ((bf.mSize + 7) / 8).toNat

variable {n : Int} {bf : Bitfield}

theorem byteCount_of_fits (hlow : 0 ≤ n) (hhigh : n < 1073741824) : byteCount n = (n + 7) / 8 := by
  rw [byteCount, int32_of_fits (by omega) (by omega), tdiv_eq_ediv_of_nonneg (by omega)]

theorem Packed.clearTrailingBits (h : bf.Packed) :
    ∃ bf', bf.clearTrailingBits = .ok bf' ∧ bf'.Packed ∧ bf'.mSize = bf.mSize ∧
      ∀ i : Nat, i < bf.mSize → bf'.getBit i = bf.getBit i := by
  obtain ⟨hnonneg, hlt, hlength⟩ := h
  rw [Bitfield.clearTrailingBits]
  by_cases hwhole : bf.mSize % 8 = 0
  · exact ⟨bf, if_pos hwhole, ⟨hnonneg, hlt, hlength⟩, rfl, fun _ _ => rfl⟩
  · rw [if_neg hwhole, if_neg (by omega)]
    refine ⟨_, rfl, ⟨hnonneg, hlt, by simpa using hlength⟩, rfl, ?_⟩
    intro i hi
    rw [getBit_eq_getMsbD, getBit_eq_getMsbD, getD_modify (by omega)]
    by_cases hlast : ((bf.mSize + 7) / 8 - 1).toNat = i / 8
    · have hall : ∀ r k : Fin 8, k < r → (0xff#8 <<< (8 - r.val)).getMsbD k = true := by decide
      have hrest : (8 - bf.mSize % 8).toNat = 8 - (bf.mSize % 8).toNat := by omega
      have hkept := hall ⟨(bf.mSize % 8).toNat, by omega⟩ ⟨i % 8, by omega⟩ (by
        show i % 8 < (bf.mSize % 8).toNat
        omega)
      rw [if_pos hlast, BitVec.getMsbD_and, hrest, hkept, Bool.and_true]
    · rw [if_neg hlast]

theorem resize_of_fits (hlow : 0 ≤ n) (hhigh : n < 1073741824) :
    ∃ bf, resize n = .ok bf ∧ bf.Packed ∧ bf.mSize = n ∧ ∀ i : Nat, i < n → bf.getBit i = false := by
  rw [resize, byteCount_of_fits hlow hhigh, int31_of_fits hlow hhigh]
  have hpacked : Packed ⟨replicate ((n + 7) / 8).toNat 0, n⟩ := ⟨hlow, hhigh, length_replicate⟩
  obtain ⟨bf, hclear, hbf, hsize, hbits⟩ := hpacked.clearTrailingBits
  refine ⟨bf, hclear, hbf, hsize, ?_⟩
  intro i hi
  rw [hbits i hi, getBit_eq_getMsbD, getD_eq_getElem?_getD, getElem?_replicate]
  split <;> simp

theorem Packed.setBit (h : bf.Packed) (i : Nat) : (bf.setBit i).Packed :=
  ⟨h.nonneg, h.lt, by simpa [Bitfield.setBit] using h.length⟩

theorem Packed.setBits (h : bf.Packed) (marks : List Bool) (hmarks : marks.length ≤ bf.mSize) :
    (bf.setBits marks).Packed ∧ (bf.setBits marks).mSize = bf.mSize ∧
      ∀ j, (bf.setBits marks).getBit j = (marks.getD j false || bf.getBit j) := by
  induction marks using reverseRecOn with
  | nil => exact ⟨h, rfl, by simp [Bitfield.setBits]⟩
  | append_singleton marks b ih =>
    rw [length_append, length_singleton] at hmarks
    obtain ⟨hpacked, hsize, hbits⟩ := ih (by omega)
    rw [Bitfield.setBits, zipIdx_append, foldl_append, ← Bitfield.setBits]
    have hlast : ∀ j, (marks ++ [b]).getD j false = (decide (marks.length = j) && b || marks.getD j false) := by
      intro j
      rw [getD_eq_getElem?_getD, getD_eq_getElem?_getD]
      rcases lt_trichotomy j marks.length with hlt | rfl | hgt
      · simp [getElem?_append_left hlt, hlt.ne']
      · simp
      · simp [getElem?_eq_none (show (marks ++ [b]).length ≤ j by simp; omega), hgt.ne, getElem?_eq_none hgt.le]
    cases b with
    | false => exact ⟨hpacked, hsize, fun j => by rw [hlast, Bool.and_false, Bool.false_or]; exact hbits j⟩
    | true =>
      refine ⟨hpacked.setBit _, hsize, fun j => ?_⟩
      have hroom : marks.length / 8 < (bf.setBits marks).mBytes.length := by
        rw [hpacked.length]
        omega
      rw [hlast, Bool.and_true, Bool.or_assoc, ← hbits j]
      simpa using getBit_setBit _ hroom j

theorem Packed.bits (h : bf.Packed) : bf.bits = .ok ((List.range bf.mSize.toNat).map bf.getBit) := by
  rw [Bitfield.bits, if_neg (by have := h.nonneg; omega)]

theorem Packed.assign_str (h : bf.Packed) :
    ∃ s, bf.str = .ok s ∧ s.length = ((bf.mSize + 7) / 8).toNat ∧
      ∃ bf', assign s bf.mSize = .ok bf' ∧ bf'.bits = bf.bits := by
  obtain ⟨hnonneg, hlt, hlength⟩ := h
  have hcount : bf.bytesSize = (bf.mSize + 7) / 8 := by
    rw [bytesSize, tdiv_eq_ediv_of_nonneg hnonneg, tmod_eq_emod_of_nonneg hnonneg]
    split <;> omega
  have hstr : bf.str = .ok (bf.mBytes.map byteChar) := by
    rw [str, hcount, if_neg (by omega), if_neg (by omega), ← hlength, take_length]
  have hbytes : ((bf.mBytes.map byteChar ++ ['\x00']).take ((bf.mSize + 7) / 8).toNat).map charByte = bf.mBytes := by
    rw [take_append_of_le_length (by simp [hlength]), ← hlength, map_take, map_map]
    have hid : charByte ∘ byteChar = id := funext charByte_byteChar
    rw [hid, map_id, take_length]
  obtain ⟨bf', hclear, hpacked', hsize, hbits⟩ := (Packed.mk hnonneg hlt hlength : bf.Packed).clearTrailingBits
  refine ⟨_, hstr, by simp [hlength], bf', ?_, ?_⟩
  · rw [assign, byteCount_of_fits hnonneg hlt, if_neg (by simp only [length_map, hlength]; omega), hbytes,
      int31_of_fits hnonneg hlt]
    exact hclear
  · rw [hpacked'.bits, (Packed.mk hnonneg hlt hlength : bf.Packed).bits, hsize]
    congr 1
    apply map_congr_left
    intro i hi
    exact hbits i (by have := mem_range.mp hi; omega)

end Bitfield

namespace Rangefield

/-- The left bound of a piece. `wrap` is what the type of a number makes of it: `int32` in the source, and `id` if it is taken as it is. -/
def pieceLeft (wrap : Int → Int) (pieceSize : Int) (i : Nat) : Int := wrap (i * pieceSize)

def pieceRight (wrap : Int → Int) (size pieceSize : Int) (i : Nat) : Int := min (wrap ((i + 1) * pieceSize)) size

def checkPiece (l r : Int) : List (Int × Int) → List (Int × Int) × Bool
  | [] => ([], false)
  | it :: rest =>
    if l ≥ it.1 ∧ r ≤ it.2 then (it :: rest, true)
    else if r ≥ it.2 then (rest, rest.head?.any fun it => l ≥ it.1 ∧ r ≤ it.2)
    else (it :: rest, false)

def markPieces (wrap : Int → Int) (size pieceSize : Int) : List (Int × Int) → Nat → Nat → List Bool
  | _, _, 0 => []
  | it, i, n + 1 =>
    let (it, isComplete) := checkPiece (pieceLeft wrap pieceSize i) (pieceRight wrap size pieceSize i) it
    isComplete :: markPieces wrap size pieceSize it (i + 1) n

def pieceNum (size pieceSize : Int) : Int := size.tdiv pieceSize + if size.tmod pieceSize = 0 then 0 else 1

/-- The answers of the loop of `range_to_bitfield`, piece by piece. -/
def rangeToBits (wrap : Int → Int) (f : Rangefield) (pieceSize : Int) : List Bool :=
  markPieces wrap f.mSize pieceSize f.tidy.mRanges.toList 0 (wrap (pieceNum f.mSize pieceSize)).toNat

def rangeToBitfield (f : Rangefield) (pieceSize : Int) : Except Fault (Rangefield × Bitfield) := do
  let bf ← Bitfield.resize (int32 (pieceNum f.mSize pieceSize))
  return (f.tidy, bf.setBits (f.rangeToBits int32 pieceSize))

structure Reading where
  left : Int
  right : Int
  leftRecord : Bool
  index : Nat
  ranges : RangeMap

def Reading.close (size : Int) (s : Reading) : Reading :=
  if s.leftRecord then { s with ranges := s.ranges.insert s.left (min s.right size), leftRecord := false } else s

def readBit (wrap : Int → Int) (size pieceSize : Int) (s : Reading) (b : Bool) : Reading :=
  let left := pieceLeft wrap pieceSize s.index
  let s' :=
    if b then
      if s.leftRecord then { s with right := s.right + pieceSize }
      else { s with left := left, right := left + pieceSize, leftRecord := true }
    else s.close size
  { s' with index := s.index + 1 }

def readBits (wrap : Int → Int) (size pieceSize : Int) (bits : List Bool) : Reading :=
  bits.foldl (readBit wrap size pieceSize) ⟨0, 0, false, 0, ∅⟩

def bitsToRange (wrap : Int → Int) (f : Rangefield) (bits : List Bool) (pieceSize : Int) : Rangefield :=
  { f with mRanges := ((readBits wrap f.mSize pieceSize bits).close f.mSize).ranges, mNeedMerge := true }

def bitfieldToRange (f : Rangefield) (bf : Bitfield) (pieceSize : Int) : Except Fault Rangefield := do
  let bits ← bf.bits
  return f.bitsToRange int32 bits pieceSize

theorem checkPiece_suffix (l r : Int) (ranges : List (Int × Int)) : (checkPiece l r ranges).1 <:+ ranges := by
  cases ranges with
  | nil => exact suffix_refl []
  | cons it rest =>
    rw [checkPiece]
    split_ifs
    · exact suffix_refl _
    · exact suffix_cons it rest
    · exact suffix_refl _

variable {ranges : List (Int × Int)} {pieceSize : Int}

theorem mem_of_checkPiece {l r : Int} (h : (checkPiece l r ranges).2 = true) : ∃ it ∈ ranges, it.1 ≤ l ∧ r ≤ it.2 := by
  cases ranges with
  | nil => exact absurd h (by simp [checkPiece])
  | cons it rest =>
    rw [checkPiece] at h
    split_ifs at h with hfirst hnext
    · exact ⟨it, mem_cons_self, hfirst⟩
    · obtain ⟨it', hit', hnext'⟩ := Option.any_eq_true .. |>.mp h
      exact ⟨it', mem_cons_of_mem _ (mem_of_mem_head? hit'), of_decide_eq_true hnext'⟩

theorem mem_of_markPieces {wrap : Int → Int} {size : Int} {i j n : Nat}
    (h : (markPieces wrap size pieceSize ranges i n)[j]? = some true) :
    ∃ it ∈ ranges, it.1 ≤ pieceLeft wrap pieceSize (i + j) ∧ pieceRight wrap size pieceSize (i + j) ≤ it.2 := by
  induction n generalizing ranges i j with
  | zero => exact absurd h (by simp [markPieces])
  | succ n ih =>
    rw [markPieces] at h
    cases j with
    | zero => exact mem_of_checkPiece (Option.some.inj h)
    | succ j =>
      obtain ⟨it, hit, hbounds⟩ := ih h
      refine ⟨it, (checkPiece_suffix _ _ _).mem hit, ?_⟩
      rwa [show i + (j + 1) = i + 1 + j by omega]

theorem length_markPieces (wrap : Int → Int) (size pieceSize : Int) (ranges : List (Int × Int)) (i n : Nat) :
    (markPieces wrap size pieceSize ranges i n).length = n := by
  induction n generalizing ranges i with
  | zero => rfl
  | succ n ih => rw [markPieces, length_cons, ih]

theorem rangeToBitfield_of_fits (f : Rangefield) (hlow : 0 ≤ pieceNum f.mSize pieceSize)
    (hhigh : pieceNum f.mSize pieceSize < 1073741824) :
    ∃ bf, f.rangeToBitfield pieceSize = .ok (f.tidy, bf) ∧ bf.Packed ∧ bf.mSize = pieceNum f.mSize pieceSize ∧
      bf.bits = .ok (f.rangeToBits int32 pieceSize) := by
  have hnum : int32 (pieceNum f.mSize pieceSize) = pieceNum f.mSize pieceSize := int32_of_fits (by omega) (by omega)
  have hlength : (f.rangeToBits int32 pieceSize).length = (pieceNum f.mSize pieceSize).toNat := by
    rw [rangeToBits, length_markPieces, hnum]
  obtain ⟨bf, hresize, hbf, hsize, hclear⟩ := Bitfield.resize_of_fits hlow hhigh
  obtain ⟨hpacked, hsize', hbits⟩ := hbf.setBits (f.rangeToBits int32 pieceSize) (by omega)
  refine ⟨bf.setBits (f.rangeToBits int32 pieceSize), ?_, hpacked, hsize'.trans hsize, ?_⟩
  · rw [rangeToBitfield, hnum, hresize]
    rfl
  · rw [hpacked.bits, hsize', hsize, ← hlength]
    congr 1
    refine ext_getElem (by simp) fun i hi hi' => ?_
    rw [getElem_map, getElem_range, hbits, hclear i (by omega), Bool.or_false, getD_eq_getElem?_getD,
      getElem?_eq_getElem hi', Option.getD_some]

def piece (size pieceSize : Int) (i : Nat) : Set Int := Set.Ico (i * pieceSize) (min ((i + 1) * pieceSize) size)

def pieces (size pieceSize : Int) (bits : List Bool) : Set Int :=
  { x | ∃ i, bits[i]? = some true ∧ x ∈ piece size pieceSize i }

theorem pieces_concat (size pieceSize : Int) (bits : List Bool) (b : Bool) :
    pieces size pieceSize (bits ++ [b]) =
      pieces size pieceSize bits ∪ if b then piece size pieceSize bits.length else ∅ := by
  ext x
  constructor
  · rintro ⟨i, hi, hx⟩
    rcases lt_trichotomy i bits.length with hlt | rfl | hgt
    · exact .inl ⟨i, by rwa [getElem?_append_left hlt] at hi, hx⟩
    · exact .inr (by simp_all)
    · simp [getElem?_eq_none (show (bits ++ [b]).length ≤ i by simp; omega)] at hi
  · rintro (⟨i, hi, hx⟩ | hx)
    · exact ⟨i, by rw [getElem?_append_left (List.getElem?_eq_some_iff.mp hi).1, hi], hx⟩
    · cases b with
      | false => exact absurd hx (by simp)
      | true => exact ⟨bits.length, by simp, hx⟩

def Reading.run (size : Int) (s : Reading) : Set Int :=
  if s.leftRecord then Set.Ico s.left (min s.right size) else ∅

/-- What the loop of `bitfield_to_range` has done with `bits`. -/
structure Reading.Exact (size pieceSize : Int) (bits : List Bool) (s : Reading) : Prop where
  index : s.index = bits.length
  covered : s.ranges.covered ∪ s.run size = pieces size pieceSize bits
  within : ∀ k v : Int, s.ranges[k]? = some v → 0 ≤ k ∧ k < v ∧ v ≤ size ∧ k < bits.length * pieceSize
  run : s.leftRecord = true → 0 ≤ s.left ∧ s.left < s.right ∧ s.right = bits.length * pieceSize ∧ s.left < size ∧
    ∀ k v : Int, s.ranges[k]? = some v → k < s.left

theorem Reading.leftRecord_close (size : Int) (s : Reading) : (s.close size).leftRecord = false := by
  rw [close]
  split <;> simp_all

section Exact

variable {size pieceSize : Int} {s : Reading} {bits : List Bool}

theorem Reading.Exact.close (h : s.Exact size pieceSize bits) : (s.close size).Exact size pieceSize bits := by
  rw [Reading.close]
  split
  · rename_i hrecord
    obtain ⟨hleft, hlt, hright, hsize, hkeys⟩ := h.run hrecord
    have hcovered := h.covered
    rw [Reading.run, if_pos hrecord] at hcovered
    have hfresh : s.ranges[s.left]? = none :=
      Option.eq_none_iff_forall_ne_some.mpr fun v hget => lt_irrefl _ (hkeys _ _ hget)
    refine ⟨h.index, ?_, fun k v hget => ?_, fun hfalse => Bool.noConfusion hfalse⟩
    · show RangeMap.covered (s.ranges.insert s.left (min s.right size)) ∪ ∅ = _
      rw [RangeMap.covered_insert, union_empty, ← hcovered, RangeMap.coveredBut_of_fresh hfresh]
    · replace hget : (s.ranges.insert s.left (min s.right size))[k]? = some v := hget
      rw [Std.ExtTreeMap.getElem?_insert] at hget
      split at hget
      · rename_i heq
        obtain rfl := Std.LawfulEqCmp.eq_of_compare heq
        obtain rfl := Option.some.inj hget
        omega
      · exact h.within k v hget
  · exact h

theorem Reading.Exact.covered_close (h : s.Exact size pieceSize bits) :
    (s.close size).ranges.covered = pieces size pieceSize bits := by
  have hcovered := h.close.covered
  rwa [Reading.run, leftRecord_close, if_neg Bool.false_ne_true, union_empty] at hcovered

theorem Reading.Exact.readBit (h : s.Exact size pieceSize bits) (hpos : 0 < pieceSize)
    (hassert : bits.length * pieceSize < size) (b : Bool) :
    (readBit id size pieceSize s b).Exact size pieceSize (bits ++ [b]) := by
  have hnext : ((bits ++ [b]).length : Int) * pieceSize = bits.length * pieceSize + pieceSize := by
    rw [length_append, length_singleton, cast_succ, add_mul, one_mul]
  have hindex : s.index + 1 = (bits ++ [b]).length := by
    rw [h.index, length_append, length_singleton]
  have hpieces := pieces_concat size pieceSize bits b
  rw [piece, add_mul, one_mul] at hpieces
  have hlow : 0 ≤ (bits.length : Int) * pieceSize := Int.mul_nonneg (Int.natCast_nonneg _) hpos.le
  have hwithin : ∀ k v : Int, s.ranges[k]? = some v → 0 ≤ k ∧ k < v ∧ v ≤ size ∧ k < (bits ++ [b]).length * pieceSize := by
    intro k v hget
    have := h.within k v hget
    omega
  rw [Rangefield.readBit, pieceLeft, id_eq]
  cases b with
  | false =>
    refine ⟨hindex, ?_, fun k v hget => ?_, fun hrecord => absurd hrecord (Bool.eq_false_iff.mp (s.leftRecord_close size))⟩
    · rw [if_neg Bool.false_ne_true, union_empty] at hpieces
      rw [hpieces]
      exact h.close.covered
    · have := h.close.within k v hget
      omega
  | true =>
    rw [if_pos rfl] at hpieces
    have hcovered := h.covered
    cases hrecord : s.leftRecord with
    | false =>
      -- a run begins with this piece
      rw [Reading.run, hrecord, if_neg Bool.false_ne_true, union_empty] at hcovered
      refine ⟨hindex, ?_, hwithin, fun _ => ?_⟩
      · rw [hpieces, ← hcovered, ← h.index]
        rfl
      · simp only [Bool.false_eq_true, if_false, if_true, hnext, h.index]
        exact ⟨hlow, by omega, trivial, hassert, fun k v hget => (h.within k v hget).2.2.2⟩
    | true =>
      obtain ⟨hleft, hlt, hright, hsize, hkeys⟩ := h.run hrecord
      rw [Reading.run, if_pos hrecord] at hcovered
      refine ⟨hindex, ?_, hwithin, fun _ => ?_⟩
      · rw [hpieces, ← hcovered, union_assoc]
        show s.ranges.covered ∪ Set.Ico s.left (min (s.right + pieceSize) size) = _
        congr 1
        ext x
        simp only [mem_union, mem_Ico, lt_min_iff]
        omega
      · simp only [if_true, hnext]
        exact ⟨hleft, by omega, by omega, hsize, hkeys⟩

theorem readBits_exact (hpos : 0 < pieceSize) (hassert : ∀ i < bits.length, i * pieceSize < size) :
    (readBits id size pieceSize bits).Exact size pieceSize bits := by
  induction bits using reverseRecOn with
  | nil =>
    refine ⟨rfl, ?_, by simp [readBits], by simp [readBits]⟩
    simp [readBits, Reading.run, RangeMap.covered_empty, pieces]
  | append_singleton bits b ih =>
    rw [length_append, length_singleton] at hassert
    rw [readBits, foldl_append]
    exact (ih fun i hi => hassert i (by omega)).readBit hpos (hassert _ (lt_succ_self _)) b

theorem readBits_of_fits {wrap : Int → Int} (hpos : 0 < pieceSize) (hassert : ∀ i < bits.length, i * pieceSize < size)
    (hfits : ∀ i < bits.length, wrap (i * pieceSize) = i * pieceSize) :
    readBits wrap size pieceSize bits = readBits id size pieceSize bits := by
  induction bits using reverseRecOn with
  | nil => rfl
  | append_singleton bits b ih =>
    rw [length_append, length_singleton] at hassert hfits
    have hindex := (readBits_exact hpos fun i hi => hassert i (lt_succ_of_lt hi)).index
    have hfront := ih (fun i hi => hassert i (lt_succ_of_lt hi)) fun i hi => hfits i (lt_succ_of_lt hi)
    rw [readBits, foldl_append, ← readBits, hfront]
    conv_rhs => rw [readBits, foldl_append, ← readBits]
    show readBit _ _ _ _ _ = readBit _ _ _ _ _
    rw [readBit, readBit, pieceLeft, pieceLeft, hindex, hfits _ (lt_succ_self _), id_eq]

theorem mul_lt_of_lt_pieceNum {i : Nat} (hnonneg : 0 ≤ size) (hpos : 0 < pieceSize) (hi : i < pieceNum size pieceSize) :
    i * pieceSize < size := by
  have hsize := emod_add_mul_ediv size pieceSize
  have hrest := emod_nonneg size hpos.ne'
  rw [pieceNum, tdiv_eq_ediv_of_nonneg hnonneg, tmod_eq_emod_of_nonneg hnonneg] at hi
  split at hi
  · have := Int.mul_le_mul_of_nonneg_right (show (i : Int) + 1 ≤ size / pieceSize by omega) hpos.le
    rw [mul_comm (size / pieceSize), add_mul, one_mul] at this
    omega
  · have := Int.mul_le_mul_of_nonneg_right (show (i : Int) ≤ size / pieceSize by omega) hpos.le
    rw [mul_comm (size / pieceSize)] at this
    omega

end Exact

theorem covered_bitsToRange_subset {f : Rangefield} {pieceSize : Int} (hsize : 0 ≤ f.mSize) (hpos : 0 < pieceSize)
    (hnum : int32 (pieceNum f.mSize pieceSize) = pieceNum f.mSize pieceSize)
    (hfits : ∀ i : Nat, i < pieceNum f.mSize pieceSize → int32 (i * pieceSize) = i * pieceSize ∧
      int32 ((i + 1) * pieceSize) = (i + 1) * pieceSize) :
    ((new f.mSize).bitsToRange int32 (f.rangeToBits int32 pieceSize) pieceSize).covered ⊆ f.covered := by
  have hindex : ∀ i < (f.rangeToBits int32 pieceSize).length, i < pieceNum f.mSize pieceSize := by
    intro i hi
    rw [rangeToBits, length_markPieces, hnum] at hi
    omega
  have hassert : ∀ i < (f.rangeToBits int32 pieceSize).length, i * pieceSize < f.mSize :=
    fun i hi => mul_lt_of_lt_pieceNum hsize hpos (hindex i hi)
  have hread := readBits_of_fits hpos hassert fun i hi => (hfits i (hindex i hi)).1
  show ((readBits int32 f.mSize pieceSize _).close f.mSize).ranges.covered ⊆ _
  rw [hread, (readBits_exact hpos hassert).covered_close]
  rintro x ⟨i, hi, hx⟩
  obtain ⟨hleft, hright⟩ := hfits i (hindex i (List.getElem?_eq_some_iff.mp hi).1)
  obtain ⟨it, hit, hlow, hhigh⟩ := mem_of_markPieces hi
  rw [Nat.zero_add] at hlow hhigh
  rw [pieceLeft, hleft] at hlow
  rw [pieceRight, hright] at hhigh
  rw [← covered_tidy]
  exact (RangeMap.mem_covered_iff_toList _ _).mpr ⟨it, hit, hlow.trans hx.1, hx.2.trans_le hhigh⟩

/-- The field that a download resumes with, from the bytes of the one that it saved. No byte in it is one that was not there. -/
theorem covered_resume_subset (f : Rangefield) (pieceSize : Int) (hsize : 0 ≤ f.mSize) (hpos : 0 < pieceSize)
    (hnum : pieceNum f.mSize pieceSize < 1073741824)
    (hfits : ∀ i : Nat, i < pieceNum f.mSize pieceSize → int32 (i * pieceSize) = i * pieceSize ∧
      int32 ((i + 1) * pieceSize) = (i + 1) * pieceSize) :
    ∃ bf s bf' g, f.rangeToBitfield pieceSize = .ok (f.tidy, bf) ∧ bf.str = .ok s ∧
      Bitfield.assign s (pieceNum f.mSize pieceSize) = .ok bf' ∧
      (new f.mSize).bitfieldToRange bf' pieceSize = .ok g ∧ g.covered ⊆ f.covered := by
  have hnonneg : 0 ≤ pieceNum f.mSize pieceSize := by
    have := Int.tdiv_nonneg hsize hpos.le
    rw [pieceNum]
    split <;> omega
  obtain ⟨bf, hsave, hpacked, hcount, hbits⟩ := f.rangeToBitfield_of_fits hnonneg hnum
  obtain ⟨s, hstr, -, bf', hassign, hbits'⟩ := hpacked.assign_str
  rw [hcount] at hassign
  refine ⟨bf, s, bf', _, hsave, hstr, hassign, ?_,
    covered_bitsToRange_subset hsize hpos (int32_of_fits (by omega) (by omega)) hfits⟩
  rw [bitfieldToRange, hbits', hbits]
  rfl

theorem covered_resume_subset_two : ∃ bf s bf' g,
    rangeToBitfield ⟨true, 10, (∅ : RangeMap).insert 0 7⟩ 4 = .ok (tidy ⟨true, 10, (∅ : RangeMap).insert 0 7⟩, bf) ∧
      bf.str = .ok s ∧ Bitfield.assign s (pieceNum 10 4) = .ok bf' ∧ (new 10).bitfieldToRange bf' 4 = .ok g ∧
      g.covered ⊆ covered ⟨true, 10, (∅ : RangeMap).insert 0 7⟩ := by
  refine covered_resume_subset ⟨true, 10, (∅ : RangeMap).insert 0 7⟩ 4 (by decide) (by decide) (by decide) ?_
  intro i hi
  replace hi : (i : Int) < 3 := hi
  exact ⟨int32_of_fits (by omega) (by omega), int32_of_fits (by omega) (by omega)⟩

end Rangefield

end Http

end Avbot
