import Avbot.Http.Bencode
import Mathlib.Algebra.Order.Ring.Nat

/-!
# Writing bencoded values

`bencode_recursive` with the buffer that a number is written into from its end, and with the number of bytes it returns. That number is an `int`, so it is right for less than 2 GiB only.
-/

namespace Avbot.Http

open List Nat Int

/-- The loop of `integer_to_str` with what is left of the buffer and of the number, and the digits already there. -/
def fillDigits (sign : Nat) : Nat → Int → Str → Str
  | 0, _, digits => digits
  | size + 1, val, digits =>
    if size + 1 > sign ∧ val ≠ 0 then fillDigits sign size (val.tdiv 10) (Char.ofNat (48 + val.tmod 10).toNat :: digits)
    else digits

def integerToStr (size : Nat) (val : Int) : Str :=
  let sign := if val < 0 then 1 else 0
  let magnitude := if val < 0 then int64 (-val) else val
  let digits :=
    if magnitude = 0 then fillDigits sign (size - 2) magnitude ['0'] else fillDigits sign (size - 1) magnitude []
  if val < 0 then '-' :: digits else digits

def writeInteger (val : Int) : Str × Int := (integerToStr 21 val, (integerToStr 21 val).length)

def writeString (val : Str) : Str × Int := (val, int32 val.length)

mutual

/-- What is written, and the number that is returned. -/
def bencodeRecursive : Entry → Str × Int
  | .int value =>
    let (digits, n) := writeInteger value
    ('i' :: digits ++ ['e'], int32 (n + 2))
  | .string value =>
    let (digits, n) := writeInteger value.length
    let (value, len) := writeString value
    (digits ++ ':' :: value, int32 (int32 (n + len) + 1))
  | .list entries =>
    let (written, ret) := bencodeElements 0 entries
    ('l' :: written ++ ['e'], int32 (ret + 2))
  | .dictionary entries =>
    let (written, ret) := bencodePairs 0 entries
    ('d' :: written ++ ['e'], int32 (ret + 2))
  | .undefined => ([], 0)

def bencodeElements (ret : Int) : List Entry → Str × Int
  | [] => ([], ret)
  | e :: entries =>
    let (first, n) := bencodeRecursive e
    let (rest, ret) := bencodeElements (int32 (ret + n)) entries
    (first ++ rest, ret)

def bencodePairs (ret : Int) : List (Str × Entry) → Str × Int
  | [] => ([], ret)
  | (key, e) :: entries =>
    let (digits, n) := writeInteger key.length
    let (key, len) := writeString key
    let (value, m) := bencodeRecursive e
    let (rest, ret) := bencodePairs (int32 (int32 (int32 (int32 (ret + n) + len) + m) + 1)) entries
    (digits ++ ':' :: key ++ value ++ rest, ret)

end

mutual

/-- The number of bytes that an entry takes. -/
def Entry.size : Entry → Nat
  | .int value => (Str.decimalInt value).length + 2
  | .string value => (bencodeString value).length
  | .list entries => sizeOfList entries + 2
  | .dictionary entries => sizeOfDict entries + 2
  | .undefined => 0

def Entry.sizeOfList : List Entry → Nat
  | [] => 0
  | e :: entries => e.size + sizeOfList entries

def Entry.sizeOfDict : List (Str × Entry) → Nat
  | [] => 0
  | (key, e) :: entries => (bencodeString key).length + e.size + sizeOfDict entries

end

mutual

theorem length_bencode : ∀ e : Entry, (bencode e).length = e.size
  | .int value => by simp [bencode, Entry.size]
  | .string value => by rw [bencode, Entry.size]
  | .list entries => by simp [bencode, Entry.size, length_bencodeList entries]
  | .dictionary entries => by simp [bencode, Entry.size, length_bencodeDict entries]
  | .undefined => rfl

theorem length_bencodeList : ∀ entries : List Entry, (bencodeList entries).length = Entry.sizeOfList entries
  | [] => rfl
  | e :: entries => by rw [bencodeList, Entry.sizeOfList, length_append, length_bencode e, length_bencodeList entries]

theorem length_bencodeDict : ∀ entries : List (Str × Entry), (bencodeDict entries).length = Entry.sizeOfDict entries
  | [] => rfl
  | (key, e) :: entries => by
    rw [bencodeDict, Entry.sizeOfDict, length_append, length_append, length_bencode e, length_bencodeDict entries]

end

theorem digitChar_eq (n : Nat) : Char.ofNat (48 + (n : Int).tmod 10).toNat = digitChar (n % 10) := by
  have hdigits : ∀ d : Nat, d < 10 → Char.ofNat (48 + (d : Int)).toNat = digitChar d := by decide
  exact hdigits (n % 10) (mod_lt n (by decide))

theorem fillDigits_zero (sign size : Nat) (digits : Str) : fillDigits sign size 0 digits = digits := by
  cases size <;> simp [fillDigits]

theorem fillDigits_eq (sign : Nat) {k n : Nat} (hpos : 0 < n) (hn : n < 10 ^ k) (digits : Str) :
    fillDigits sign (sign + k) n digits = Str.decimal n ++ digits := by
  induction k generalizing n digits with
  | zero => omega
  | succ k ih =>
    rw [← add_assoc, fillDigits, if_pos ⟨by omega, by omega⟩, digitChar_eq, Str.decimal]
    rcases lt_or_ge n 10 with hlt | hge
    · rw [toDigits_of_lt_base hlt, mod_eq_of_lt hlt, show (n : Int).tdiv 10 = 0 from tdiv_eq_zero_of_lt (by omega) (by omega),
        fillDigits_zero, singleton_append]
    · have hrest := ih (n := n / 10) (by omega) (by rw [pow_succ] at hn; omega) (digitChar (n % 10) :: digits)
      rw [toDigits_of_base_le (by decide) hge, append_assoc]
      exact hrest

theorem integerToStr_eq {val : Int} (hlow : -9223372036854775808 < val) (hhigh : val ≤ 9223372036854775807) :
    integerToStr 21 val = Str.decimalInt val := by
  rw [integerToStr, Str.decimalInt]
  rcases lt_trichotomy val 0 with hneg | rfl | hpos
  · obtain ⟨n, rfl⟩ : ∃ n : Nat, val = -n := ⟨val.natAbs, by omega⟩
    have hmagnitude : int64 (- -(n : Int)) = n := by rw [neg_neg, int64_of_fits (by omega) (by omega)]
    simp only [if_pos hneg, hmagnitude]
    rw [if_neg (by omega), fillDigits_eq 1 (k := 19) (by omega) (by omega), append_nil, natAbs_neg, natAbs_natCast]
  · rfl
  · obtain ⟨n, rfl⟩ : ∃ n : Nat, val = n := ⟨val.natAbs, by omega⟩
    simp only [if_neg (show ¬ (n : Int) < 0 by omega)]
    rw [if_neg (by omega), natAbs_natCast]
    have hdigits := fillDigits_eq 0 (k := 20) (n := n) (by omega) (by omega) []
    rwa [zero_add, append_nil] at hdigits

theorem int32_add_left (a b : Int) : int32 (int32 a + b) = int32 (a + b) := bmod_add_bmod

theorem int32_add_right (a b : Int) : int32 (a + int32 b) = int32 (a + b) := add_bmod_bmod

theorem writeInteger_length {n : Nat} (hn : n < intLimit) : writeInteger n = (Str.decimal n, ((Str.decimal n).length : Int)) := by
  rw [intLimit] at hn
  rw [writeInteger, integerToStr_eq (by omega) (by omega), Str.decimalInt, if_neg (by omega), natAbs_natCast]

theorem bencodeElements_eq {entries : List Entry} (hentries : ∀ e ∈ entries, bencodeRecursive e = (bencode e, int32 (bencode e).length))
    (n : Int) : bencodeElements (int32 n) entries = (bencodeList entries, int32 (n + (bencodeList entries).length)) := by
  induction entries generalizing n with
  | nil => simp [bencodeElements, bencodeList]
  | cons e entries ih =>
    obtain ⟨he, hrest⟩ := forall_mem_cons.mp hentries
    simp only [bencodeElements, he, int32_add_left, int32_add_right, ih hrest]
    rw [bencodeList, length_append, natCast_add, add_assoc]

theorem bencodePairs_eq {entries : List (Str × Entry)}
    (hentries : ∀ p ∈ entries, p.1.length < intLimit ∧ bencodeRecursive p.2 = (bencode p.2, int32 (bencode p.2).length)) (n : Int) :
    bencodePairs (int32 n) entries = (bencodeDict entries, int32 (n + (bencodeDict entries).length)) := by
  induction entries generalizing n with
  | nil => simp [bencodePairs, bencodeDict]
  | cons p entries ih =>
    obtain ⟨key, e⟩ := p
    obtain ⟨⟨hkey, he⟩, hrest⟩ := forall_mem_cons.mp hentries
    simp only [bencodePairs, writeInteger_length hkey, writeString, he, int32_add_left, int32_add_right, ih hrest]
    rw [bencodeDict, bencodeString]
    refine Prod.ext (by simp) (congrArg int32 ?_)
    simp only [length_append, length_cons]
    omega

theorem length_enclosed (c : Char) (s : Str) : ((c :: s ++ ['e'] : Str).length : Int) = s.length + 2 := by
  simp only [length_append, length_cons, length_nil]
  omega

/-- What is written is the text of the entry, and the number returned is its length as an `int`. -/
theorem bencodeRecursive_eq {depth : Nat} {e : Entry} (hfits : e.Fits depth) :
    bencodeRecursive e = (bencode e, int32 (bencode e).length) := by
  induction depth generalizing e with
  | zero => exact hfits.elim
  | succ depth ih =>
    cases e with
    | int value =>
      rw [bencode, length_enclosed, bencodeRecursive, writeInteger, integerToStr_eq hfits.1 hfits.2]
    | string value =>
      simp only [bencodeRecursive, writeInteger_length hfits, writeString, int32_add_left, int32_add_right]
      rw [bencode, bencodeString]
      refine congrArg (Prod.mk _) (congrArg int32 ?_)
      simp only [length_append, length_cons]
      omega
    | list entries =>
      have hloop := bencodeElements_eq (fun e he => ih (hfits e he)) 0
      rw [show int32 0 = 0 from rfl, zero_add] at hloop
      rw [bencode, length_enclosed, bencodeRecursive, hloop]
      exact congrArg (Prod.mk _) (int32_add_left _ _)
    | dictionary entries =>
      have hloop := bencodePairs_eq (fun p hp => ⟨(hfits.2 p hp).1, ih (hfits.2 p hp).2⟩) 0
      rw [show int32 0 = 0 from rfl, zero_add] at hloop
      rw [bencode, length_enclosed, bencodeRecursive, hloop]
      exact congrArg (Prod.mk _) (int32_add_left _ _)
    | undefined => exact hfits.elim

/-- What is asked of the writer: that the entry is read back, and that the number of bytes is right. -/
def EncodesRight (e : Entry) : Prop :=
  bdecode (bencodeRecursive e).1 = .ok e ∧ (bencodeRecursive e).2 = (bencodeRecursive e).1.length

theorem int32_eq_iff (n : Nat) : int32 n = n ↔ n < intLimit := by
  have hrange := int32_range n
  rw [intLimit]
  exact ⟨fun h => by omega, fun h => int32_of_fits (by omega) (by omega)⟩

/-- Entries are read back, and the number of their bytes is right if it is an `int`. -/
theorem encodesRight_iff {e : Entry} (hfits : e.Fits 100) : EncodesRight e ↔ e.size < intLimit := by
  have hread := bdecode_bencode hfits []
  rw [append_nil] at hread
  rw [EncodesRight, bencodeRecursive_eq hfits, and_iff_right hread, int32_eq_iff, length_bencode]

theorem encodesRight_list : EncodesRight (.list [.int (-5), .string "ab".toList]) :=
  (encodesRight_iff (by simp [Entry.Fits, intLimit])).mpr (by decide)

/-- A string of less than 2 GiB for which a negative number of bytes is returned. -/
theorem not_encodesRight_long :
    (Entry.string (replicate 2147483647 'a')).Fits 100 ∧ (bencodeRecursive (.string (replicate 2147483647 'a'))).2 = -2147483638 := by
  have hlength : (replicate 2147483647 'a').length = 2147483647 := length_replicate
  refine ⟨by rw [Entry.Fits, hlength]; decide, ?_⟩
  simp only [bencodeRecursive, writeString, hlength]
  decide

end Avbot.Http
