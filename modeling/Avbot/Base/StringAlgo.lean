import Avbot.Base.Text
import Mathlib.Data.List.DropRight

/-!
# Lines, blanks and numbers in text

`std::getline`, the trimming functions of Boost, and the decimal numbers that streams and `boost::format` write.
-/

namespace Avbot

open List Nat Int

namespace Str

def trimRight (s : Str) : Str := s.rdropWhile isSpace

def trimLeft (s : Str) : Str := s.dropWhile isSpace

def trim (s : Str) : Str := trimLeft (trimRight s)

/-- What is left of a string once it is passed on as `s.c_str()`. -/
def cStr (s : Str) : Str := s.takeWhile (· ≠ '\x00')

def toLower (s : Str) : Str := s.map Char.toLower

def toUpper (s : Str) : Str := s.map Char.toUpper

def natValue (s : Str) : Option Nat :=
  if s ≠ [] ∧ s.all Char.isDigit then some (ofDigitChars 10 s 0) else none

def intValue : Str → Option Int
  | '-' :: s => (natValue s).map fun n : Nat => -(n : Int)
  | '+' :: s => (natValue s).map ofNat
  | s => (natValue s).map ofNat

def sizeLimit : Nat := 18446744073709551616

/-- The digits of a `std::size_t`. -/
def castMagnitude (digits : Str) : Except Exn Nat :=
  match natValue digits with
  | some n => if n < sizeLimit then .ok n else .error .badLexicalCast
  | none => .error .badLexicalCast

/-- `boost::lexical_cast<std::size_t>`, which takes a minus sign and negates the number modulo the size of the type. -/
def lexicalCastSize : Str → Except Exn Nat
  | '-' :: digits => (castMagnitude digits).map fun n => (sizeLimit - n) % sizeLimit
  | '+' :: digits => castMagnitude digits
  | digits => castMagnitude digits

example : lexicalCastSize "+012".toList = .ok 12 ∧ lexicalCastSize "-1".toList = .ok (2 ^ 64 - 1) ∧
    lexicalCastSize "1 ".toList = .error .badLexicalCast := by decide +kernel

/-- `out << n` and `%d`. -/
def decimal (n : Nat) : Str := toDigits 10 n

def decimalInt (n : Int) : Str := if n < 0 then '-' :: decimal n.natAbs else decimal n.natAbs

def crlf : Str := ['\r', '\n']

variable {s t : Str} {n : Nat} {c : Char}

theorem lexicalCastSize_of_intValue {z : Int} (hvalue : intValue s = some z) :
    lexicalCastSize s = if z.natAbs < sizeLimit then .ok (z % sizeLimit).toNat else .error .badLexicalCast := by
  have hplain : ∀ digits, (natValue digits).map ofNat = some z →
      castMagnitude digits = if z.natAbs < sizeLimit then .ok (z % sizeLimit).toNat else .error .badLexicalCast := by
    intro digits hdigits
    obtain ⟨n, hn, rfl⟩ := Option.map_eq_some_iff.mp hdigits
    rw [castMagnitude, hn]
    by_cases hlimit : n < sizeLimit
    · have hmod : ((n : Int) % sizeLimit).toNat = n := by
        rw [emod_eq_of_lt (by omega) (by omega), toNat_natCast]
      simp [hlimit, hmod]
    · simp [hlimit]
  rw [intValue.eq_def] at hvalue
  split at hvalue
  case h_1 digits =>
    obtain ⟨n, hn, rfl⟩ := Option.map_eq_some_iff.mp hvalue
    simp only [lexicalCastSize, castMagnitude, hn, natAbs_neg, natAbs_natCast]
    by_cases hlimit : n < sizeLimit
    · have hmod : (-(n : Int) % sizeLimit).toNat = (sizeLimit - n) % sizeLimit := by
        rw [sizeLimit] at hlimit ⊢
        omega
      simp [hlimit, hmod, Except.map]
    · simp [hlimit, Except.map]
  case h_2 digits => exact hplain digits hvalue
  case h_3 hminus hplus =>
    have hcast : lexicalCastSize s = castMagnitude s := by
      rw [lexicalCastSize.eq_def]
      grind
    exact hcast.trans (hplain s hvalue)

theorem isDigit_of_mem_decimal (hc : c ∈ decimal n) : c.isDigit = true :=
  isDigit_of_mem_toDigits (by decide) (by decide) hc

theorem isSpace_cases (hspace : isSpace c = true) :
    c = ' ' ∨ c = '\t' ∨ c = '\n' ∨ c = '\r' ∨ c = '\x0b' ∨ c = '\x0c' := by
  simp only [isSpace, decide_eq_true_eq] at hspace
  simpa [or_assoc] using hspace

theorem isSpace_of_isDigit (hc : c.isDigit = true) : isSpace c = false := by
  by_contra hspace
  rcases isSpace_cases (by simpa using hspace) with rfl | rfl | rfl | rfl | rfl | rfl <;> exact absurd hc (by decide)

theorem decimal_injective {m : Nat} (h : decimal m = decimal n) : m = n := by
  have hvalue := congrArg (ofDigitChars 10 · 0) h
  simpa only [decimal, ofDigitChars_ten_toDigits] using hvalue

theorem decimal_ne_nil (n : Nat) : decimal n ≠ [] := toDigits_ne_nil

theorem not_mem_decimal (hc : c.isDigit = false) : c ∉ decimal n := by
  intro hmem
  simp [isDigit_of_mem_decimal hmem] at hc

theorem trimRight_append_of_ne_nil (ht : trimRight t ≠ []) : trimRight (s ++ t) = s ++ trimRight t := by
  induction t using reverseRecOn with
  | nil => exact absurd rfl ht
  | append_singleton t c ih =>
    rw [← append_assoc, trimRight, trimRight]
    by_cases hc : isSpace c = true
    · rw [rdropWhile_concat_pos _ _ _ hc, rdropWhile_concat_pos _ _ _ hc]
      refine ih ?_
      rwa [trimRight, rdropWhile_concat_pos _ _ _ hc] at ht
    · rw [rdropWhile_concat_neg _ _ _ hc, rdropWhile_concat_neg _ _ _ hc, append_assoc]

theorem trimRight_append_of_nil (ht : trimRight t = []) : trimRight (s ++ t) = trimRight s := by
  induction t using reverseRecOn with
  | nil => rw [append_nil]
  | append_singleton t c ih =>
    have hall := rdropWhile_eq_nil_iff.mp ht
    rw [← append_assoc, trimRight, rdropWhile_concat_pos _ _ _ (hall c (by simp))]
    exact ih (rdropWhile_eq_nil_iff.mpr fun x hx => hall x (by simp [hx]))

theorem trimRight_length_le (s : Str) : (trimRight s).length ≤ s.length :=
  ( rdropWhile_prefix _ s).length_le

theorem trimRight_append_cons (hc : isSpace c = false) : trimRight (s ++ c :: t) = s ++ c :: trimRight t := by
  by_cases ht : trimRight t = []
  · have hsplit : s ++ c :: t = (s ++ [c]) ++ t := by simp
    rw [hsplit, trimRight_append_of_nil ht, ht, trimRight, rdropWhile_concat_neg _ _ _ (by simp [hc])]
  · have hsplit : s ++ c :: t = (s ++ [c]) ++ t := by simp
    rw [hsplit, trimRight_append_of_ne_nil ht]
    simp

theorem trimRight_crlf (s : Str) : trimRight (s ++ ['\r']) = trimRight s :=
  trimRight_append_of_nil (by decide)

theorem trimRight_eq_self_iff : trimRight s = s ↔ ∀ c ∈ s.getLast?, isSpace c = false := by
  rw [trimRight, rdropWhile_eq_self_iff]
  cases s using reverseRecOn with
  | nil => simp
  | append_singleton s c => simp

theorem cStr_append_of_not_mem (hs : '\x00' ∉ s) : cStr (s ++ t) = s ++ cStr t := by
  induction s with
  | nil => rfl
  | cons c s ih =>
    rw [mem_cons, not_or] at hs
    rw [cons_append, cStr, takeWhile_cons_of_pos (by simpa using Ne.symm hs.1)]
    exact congrArg (c :: ·) (ih hs.2)

theorem cStr_length_le (s : Str) : (cStr s).length ≤ s.length := ( takeWhile_prefix _).length_le

theorem cStr_eq_self_iff : cStr s = s ↔ '\x00' ∉ s := by
  rw [cStr, takeWhile_eq_self_iff]
  grind

theorem nul_not_mem_cStr (s : Str) : '\x00' ∉ cStr s := by
  intro hmem
  simpa using mem_takeWhile_imp hmem

theorem cStr_decimalInt (n : Int) : cStr (decimalInt n) = decimalInt n := by
  apply cStr_eq_self_iff.mpr
  unfold decimalInt
  split
  · simp [not_mem_decimal (n := n.natAbs) (c := '\x00') (by decide)]
  · exact not_mem_decimal (by decide)

theorem cStr_append_of_mem (hs : '\x00' ∈ s) : cStr (s ++ t) = cStr s := by
  rw [cStr, takeWhile_append, if_neg, cStr]
  intro hlength
  exact cStr_eq_self_iff.mp (( takeWhile_prefix _).eq_of_length hlength) hs

end Str

namespace Istream

def getline (s : Istream) : Str × Istream :=
  if s.eof then ([], s)
  else
    match s.buf.dropWhile (· ≠ '\n') with
    | [] => (s.buf, ⟨[], true⟩)
    | _ :: rest => (s.buf.takeWhile (· ≠ '\n'), ⟨rest, false⟩)

theorem getline_of_line {line : Str} (hline : '\n' ∉ line) (rest : Str) :
    (Istream.mk (line ++ '\n' :: rest) false).getline = (line, ⟨rest, false⟩) := by
  have hall : ∀ c ∈ line, decide (c ≠ '\n') = true := by
    grind
  simp only [getline, Bool.false_eq_true, if_false, dropWhile_append_of_pos hall, takeWhile_append_of_pos hall]
  simp

theorem getline_of_no_line {line : Str} (hline : '\n' ∉ line) :
    (Istream.mk line false).getline = (line, ⟨[], true⟩) := by
  have hall : ∀ c ∈ line, decide (c ≠ '\n') = true := by
    grind
  simp only [getline, Bool.false_eq_true, if_false, dropWhile_eq_nil_iff.mpr hall]

theorem getline_length_lt {s : Istream} (hopen : s.eof = false) (heof : s.getline.2.eof = false) :
    s.getline.2.buf.length < s.buf.length := by
  have hsuffix := (dropWhile_suffix (l := s.buf) fun c => decide (c ≠ '\n')).length_le
  simp only [getline, hopen, Bool.false_eq_true, if_false] at heof ⊢
  cases hrest : s.buf.dropWhile (fun c => decide (c ≠ '\n')) with
  | nil =>
    grind
  | cons c rest =>
    grind

theorem getline_length_le (s : Istream) : s.getline.2.buf.length ≤ s.buf.length := by
  cases hopen : s.eof with
  | true => simp [getline, hopen]
  | false =>
    cases heof : s.getline.2.eof with
    | false => exact (getline_length_lt hopen heof).le
    | true =>
      grind [getline]

theorem getline_prefix (s : Istream) : s.getline.1 <+: s.buf := by
  rw [getline]
  grind

theorem mem_getline_of_head {c : Char} {buf : Str} (hc : c ≠ '\n') : c ∈ (Istream.mk (c :: buf) false).getline.1 := by
  rw [getline]
  split
  · contradiction
  · split
    · exact mem_cons_self
    · rw [takeWhile_cons_of_pos (by simpa using hc)]
      exact mem_cons_self

end Istream

end Avbot
