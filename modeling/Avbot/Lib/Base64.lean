import Mathlib.Data.List.Basic
import Mathlib.Tactic.Ring

/-!
# Base 64

The regrouping of bits: three numbers of eight bits become four of six, and back. The way back also takes a last group of two or three numbers. `text` is the encoding as the standard words it, over the bits.
-/

namespace Base64

open List Nat

def sextets : List Nat → List Nat
  | a :: b :: c :: l => a / 4 :: (a % 4 * 16 + b / 16) :: (b % 16 * 4 + c / 64) :: c % 64 :: sextets l
  | _ => []

def octets : List Nat → Option (List Nat)
  | [] => some []
  | [_] => none
  | [a, b] => some [a * 4 + b / 16]
  | [a, b, c] => some [a * 4 + b / 16, b % 16 * 16 + c / 4]
  | a :: b :: c :: d :: l =>
    (octets l).map fun m => (a * 4 + b / 16) :: (b % 16 * 16 + c / 4) :: (c % 4 * 64 + d) :: m

variable {l : List Nat}

theorem length_lt_of_short (hshort : ∀ a b c m, l = a :: b :: c :: m → False) : l.length < 3 := by
  match l with
  | [] => simp
  | [_] => simp
  | [_, _] => simp
  | a :: b :: c :: m => exact (hshort a b c m rfl).elim

theorem octets_sextets (hl : ∀ n ∈ l, n < 256) (hlength : l.length % 3 = 0) : octets (sextets l) = some l := by
  induction l using sextets.induct with
  | case1 a b c l ih =>
    have ha := hl a (by simp)
    have hb := hl b (by simp)
    have hc := hl c (by simp)
    have hrest : octets (sextets l) = some l :=
      ih (fun n hn => hl n (by simp [hn])) (by simp only [length_cons] at hlength; omega)
    have h₁ : a / 4 * 4 + (a % 4 * 16 + b / 16) / 16 = a := by omega
    grind [sextets, octets]
  | case2 l hshort =>
    have hlt := length_lt_of_short hshort
    obtain rfl : l = [] := length_eq_zero_iff.mp (by omega)
    rfl

theorem length_sextets (l : List Nat) : (sextets l).length = l.length / 3 * 4 := by
  induction l using sextets.induct with
  | case1 a b c l ih =>
    simp only [sextets, length_cons, ih]
    omega
  | case2 l hshort =>
    grind [sextets, length_lt_of_short]

theorem length_octets {m : Nat} (hl : l.length = m * 4) : ∃ r, octets l = some r ∧ r.length = m * 3 := by
  induction m generalizing l with
  | zero => exact ⟨[], by rw [length_eq_zero_iff.mp (by omega : l.length = 0)]; rfl, rfl⟩
  | succ m ih =>
    match l, hl with
    | a :: b :: c :: d :: l, hl =>
      simp only [length_cons] at hl
      grind [octets]
    | [], hl => simp at hl
    | [_], hl => simp at hl; omega
    | [_, _], hl => simp at hl; omega
    | [_, _, _], hl => simp at hl; omega

theorem length_octets_le {r : List Nat} (hoctets : octets l = some r) : r.length ≤ l.length := by
  induction l using octets.induct generalizing r with
  | case1 => simp_all [octets]
  | case2 => simp [octets] at hoctets
  | case3 a b =>
    grind [octets]
  | case4 a b c =>
    grind [octets]
  | case5 a b c d l ih =>
    rw [octets, Option.map_eq_some_iff] at hoctets
    grind

theorem lt_of_mem_sextets (hl : ∀ n ∈ l, n < 256) : ∀ n ∈ sextets l, n < 64 := by
  induction l using sextets.induct with
  | case1 a b c l ih =>
    have ha := hl a (by simp)
    have hb := hl b (by simp)
    have hc := hl c (by simp)
    intro n hn
    simp only [sextets, mem_cons] at hn
    grind
  | case2 l hshort =>
    rw [sextets]
    · simp
    · exact hshort

def alphabet : List Char := "ABCDEFGHIJKLMNOPQRSTUVWXYZabcdefghijklmnopqrstuvwxyz0123456789+/".toList

def encodeChar (n : Nat) : Char := alphabet.getD n 'A'

def decodeChar (c : Char) : Option Nat := alphabet.idxOf? c

theorem decodeChar_encodeChar : ∀ n < 64, decodeChar (encodeChar n) = some n := by
  decide +kernel

theorem encodeChar_mem (n : Nat) : encodeChar n ∈ alphabet := by
  rw [encodeChar, getD_eq_getElem?_getD]
  cases hn : alphabet[n]? with
  | none => decide
  | some c => exact mem_of_getElem? hn

/-! ### The text of RFC 4648

The bits of all numbers in one row, most significant first, cut into groups of six with zero bits after the last one, and `=` up to a multiple of four characters.
-/

def bits (width n : Nat) : List Bool := (List.range width).reverse.map n.testBit

def number (l : List Bool) : Nat := l.foldl (fun n b => 2 * n + b.toNat) 0

def sixes : List Bool → List (List Bool)
  | [] => []
  | a :: b :: c :: d :: e :: f :: l => [a, b, c, d, e, f] :: sixes l
  | l => [l ++ List.replicate (6 - l.length) false]

def text (src : List Nat) : List Char :=
  let characters := ((sixes (src.flatMap (bits 8))).map number).map encodeChar
  characters ++ List.replicate ((4 - characters.length % 4) % 4) '='

theorem bits_eight (n : Nat) :
    bits 8 n = [n.testBit 7, n.testBit 6, n.testBit 5, n.testBit 4, n.testBit 3, n.testBit 2, n.testBit 1, n.testBit 0] :=
  rfl

theorem foldl_bits (l : List Bool) (n : Nat) :
    l.foldl (fun n b => 2 * n + b.toNat) n = n * 2 ^ l.length + number l := by
  induction l generalizing n with
  | nil => simp [number]
  | cons b l ih =>
    grind [number]

theorem number_append (l m : List Bool) : number (l ++ m) = number l * 2 ^ m.length + number m := by
  rw [number, foldl_append, foldl_bits]
  rfl

def slice (n low : Nat) : Nat → List Bool
  | 0 => []
  | width + 1 => n.testBit (low + width) :: slice n low width

theorem length_slice (n low width : Nat) : (slice n low width).length = width := by
  induction width with
  | zero => rfl
  | succ width ih => rw [slice, length_cons, ih]

theorem number_slice (n low width : Nat) : number (slice n low width) = n / 2 ^ low % 2 ^ width := by
  induction width with
  | zero => simp [slice, number, mod_one]
  | succ width ih =>
    have hone : number [n.testBit (low + width)] = n / 2 ^ low / 2 ^ width % 2 := by
      rw [Nat.div_div_eq_div_mul, ← Nat.pow_add, ← Nat.toNat_testBit]
      simp [number]
    rw [slice, ← singleton_append, number_append, ih, hone, length_slice, pow_succ, mod_mul]
    ring

section Group

variable {a b c : Nat}

theorem number_high (ha : a < 256) :
    number [a.testBit 7, a.testBit 6, a.testBit 5, a.testBit 4, a.testBit 3, a.testBit 2] = a / 4 := by
  have hslice := number_slice a 2 6
  rw [mod_eq_of_lt (by omega)] at hslice
  exact hslice

theorem number_middle (hb : b < 256) :
    number [a.testBit 1, a.testBit 0, b.testBit 7, b.testBit 6, b.testBit 5, b.testBit 4] = a % 4 * 16 + b / 16 := by
  have happend := number_append (slice a 0 2) (slice b 4 4)
  rw [number_slice, number_slice, length_slice, Nat.pow_zero, Nat.div_one, Nat.mod_eq_of_lt (a := b / 2 ^ 4) (by omega)] at happend
  exact happend

theorem number_low (hc : c < 256) :
    number [b.testBit 3, b.testBit 2, b.testBit 1, b.testBit 0, c.testBit 7, c.testBit 6] = b % 16 * 4 + c / 64 := by
  have happend := number_append (slice b 0 4) (slice c 6 2)
  rw [number_slice, number_slice, length_slice, Nat.pow_zero, Nat.div_one, Nat.mod_eq_of_lt (a := c / 2 ^ 6) (by omega)] at happend
  exact happend

theorem number_last :
    number [c.testBit 5, c.testBit 4, c.testBit 3, c.testBit 2, c.testBit 1, c.testBit 0] = c % 64 := by
  have hslice := number_slice c 0 6
  rw [Nat.pow_zero, Nat.div_one] at hslice
  exact hslice

theorem text_cons (ha : a < 256) (hb : b < 256) (hc : c < 256) (l : List Nat) :
    text (a :: b :: c :: l) =
      [encodeChar (a / 4), encodeChar (a % 4 * 16 + b / 16), encodeChar (b % 16 * 4 + c / 64), encodeChar (c % 64)] ++
        text l := by
  have hbits : sixes ((a :: b :: c :: l).flatMap (bits 8)) =
      [a.testBit 7, a.testBit 6, a.testBit 5, a.testBit 4, a.testBit 3, a.testBit 2] ::
      [a.testBit 1, a.testBit 0, b.testBit 7, b.testBit 6, b.testBit 5, b.testBit 4] ::
      [b.testBit 3, b.testBit 2, b.testBit 1, b.testBit 0, c.testBit 7, c.testBit 6] ::
      [c.testBit 5, c.testBit 4, c.testBit 3, c.testBit 2, c.testBit 1, c.testBit 0] :: sixes (l.flatMap (bits 8)) := by
    simp only [flatMap_cons, bits_eight, cons_append, nil_append, sixes]
  simp only [text, hbits, map_cons, number_high ha, number_middle hb, number_low hc, number_last, length_cons,
    add_assoc, reduceAdd, add_mod_right, cons_append, nil_append]

theorem text_one (ha : a < 256) : text [a] = [encodeChar (a / 4), encodeChar (a % 4 * 16), '=', '='] := by
  have hmiddle := number_middle (a := a) (b := 0) (by omega)
  simp only [Nat.zero_testBit, Nat.zero_div, Nat.add_zero] at hmiddle
  simp only [text, flatMap_cons, flatMap_nil, bits_eight, cons_append, nil_append, sixes,
    map_cons, map_nil, length_cons, length_nil, replicate, number_high ha, hmiddle]

theorem text_two (ha : a < 256) (hb : b < 256) :
    text [a, b] = [encodeChar (a / 4), encodeChar (a % 4 * 16 + b / 16), encodeChar (b % 16 * 4), '='] := by
  have hlow := number_low (b := b) (c := 0) (by omega)
  simp only [Nat.zero_testBit, Nat.zero_div, Nat.add_zero] at hlow
  simp only [text, flatMap_cons, flatMap_nil, bits_eight, cons_append, nil_append, sixes,
    map_cons, map_nil, length_cons, length_nil, replicate, number_high ha, number_middle hb, hlow]

end Group

end Base64
