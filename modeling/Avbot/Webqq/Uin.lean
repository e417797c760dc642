import Avbot.Base.MachineInt
import Avbot.Http.Hex

/-!
# The uin in the answer to the check

The answer to `check_login` holds the uin as text, four characters for each of its bytes, of any length. `uin_decode` turns every four characters into a byte of a buffer of nine.
-/

namespace Avbot

open List Pattern Nat
open Avbot.Http (hexDigit hexDigit_lt isHexDigit hexValue not_isSpace_of_isHexDigit ne_of_isHexDigit)

namespace Webqq

def isUinChar (c : Char) : Bool := c.isAlphanum ∨ c = '\\'

/-- `ptui_checkVC\('([0-9])',[ ]?'([0-9a-zA-Z!]*)',[ ]?'([0-9a-zA-Z\\]*)'`. -/
def checkVc : Regex Char where
  items :=
    lit "ptui_checkVC('".toList ++ Item.one Char.isDigit :: (lit "',".toList ++ Item.opt (· = ' ') :: (lit "'".toList ++
      Item.many (fun c => c.isAlphanum ∨ c = '!') :: (lit "',".toList ++ Item.opt (· = ' ') :: (lit "'".toList ++
        Item.many isUinChar :: lit "'".toList))))
  groups := [(14, 1), (19, 1), (24, 1)]

/-- `ptui_checkVC\('([0-9])','([_\-0-9a-zA-Z!]*)','([0-9a-zA-Z\\]*)'`. -/
def checkVc2 : Regex Char where
  items :=
    lit "ptui_checkVC('".toList ++ Item.one Char.isDigit :: (lit "','".toList ++
      Item.many (fun c => c = '_' ∨ c = '-' ∨ c.isAlphanum ∨ c = '!') :: (lit "','".toList ++
        Item.many isUinChar :: lit "'".toList))
  groups := [(14, 1), (18, 1), (22, 1)]

def storedUin (response : Str) : Option Str :=
  ((checkVc.search response).or (checkVc2.search response)).map fun what => what.getD 3 []

/-- The prefix `0x` counts only before a digit. -/
def skipPrefix : Str → Str
  | '0' :: x :: d :: rest => if (x = 'x' ∨ x = 'X') ∧ isHexDigit d then d :: rest else '0' :: x :: d :: rest
  | u => u

/-- `strtol(u, NULL, 16)` of a text too short for an overflow. -/
def strtol16 (u : Str) : Int :=
  let u := u.dropWhile Str.isSpace
  let rest := if u.head? = some '-' ∨ u.head? = some '+' then u.tail else u
  let value : Int := hexValue ((skipPrefix rest).takeWhile isHexDigit)
  if u.head? = some '-' then -value else value

/-- The byte of a round: `strncpy` stops after two characters or at a zero, and the number is cut to a `char`. -/
def uinByte (uin : Str) (i : Nat) : Char :=
  let u := ((uin.drop (i * 4 + 2)).take 2).takeWhile (· ≠ '\x00')
  Char.ofNat (strtol16 u % 256).toNat

/-- `_uin` after a number of rounds. A write beyond its nine places is undefined. -/
def uinRounds (uin : Str) : Nat → Option (List Char)
  | 0 => some (List.replicate 9 '\x00')
  | i + 1 => do
    let buf ← uinRounds uin i
    if i < 9 then some (buf.set i (uinByte uin i)) else none

def uinByteLength (uin : Str) : Int := int32 (uin.length / 4 : Nat)

def uinDecode (uin : Str) : Option Str := (uinRounds uin (uinByteLength uin).toNat).map (·.take 8)

variable {uin t : Str} {n i : Nat} {bs : List Nat}

theorem storedUin_mem {response : Str} (hstored : storedUin response = some uin) : ∀ c ∈ uin, isUinChar c = true := by
  obtain ⟨what, hsearch, rfl⟩ := Option.map_eq_some_iff.mp hstored
  rcases Option.or_eq_some_iff.mp hsearch with hfirst | ⟨-, hsecond⟩
  · exact (Regex.fits_of_search hfirst (j := 2) rfl rfl).1
  · exact (Regex.fits_of_search hsecond (j := 2) rfl rfl).1

theorem storedUin_of_forall (huin : ∀ c ∈ uin, isUinChar c = true) :
    storedUin ("ptui_checkVC('1','','".toList ++ uin ++ "'".toList) = some uin := by
  have hquote : ∀ (p : Char → Bool) (s : Str), p '\'' = false → ∀ c ∈ ("'".toList ++ s).head?, p c = false := by
    intro p s hp c hc
    cases hc
    exact hp
  have hthird : matchFront (fun _ => true) (Item.many isUinChar :: lit "'".toList) (uin ++ "'".toList) =
      some ([uin, ['\'']], []) :=
    matchFront_greedy (m := ([['\'']], [])) rfl rfl huin (zero_le _) (by decide) rfl
  have hrest : matchFront (fun _ => true) (lit "',".toList ++ Item.opt (· = ' ') :: (lit "'".toList ++
      Item.many isUinChar :: lit "'".toList)) ("',".toList ++ ("'".toList ++ (uin ++ "'".toList))) =
      some ([['\''], [','], [], ['\''], uin, ['\'']], []) := by
    rw [matchFront_lit, matchFront_opt_absent (hquote (· = ' ') _ (by decide)), matchFront_lit, hthird]
    rfl
  have hstop : ∀ c ∈ ("',".toList ++ ("'".toList ++ (uin ++ "'".toList))).head?,
      (Item.many fun c => c.isAlphanum ∨ c = '!').cls c = false := by
    intro c hc
    cases hc
    decide
  have hsecond := matchFront_greedy (t := []) rfl rfl (by simp) (zero_le _) hstop hrest
  have hall : matchFront (fun _ => true) checkVc.items ("ptui_checkVC('".toList ++ ('1' :: ("',".toList ++ ("'".toList ++
      ([] ++ ("',".toList ++ ("'".toList ++ (uin ++ "'".toList)))))))) =
      some (("ptui_checkVC('".toList.map fun c => [c]) ++ [['1'], ['\''], [','], [], ['\''], [], ['\''], [','], [], ['\''], uin,
        ['\'']], []) := by
    rw [checkVc, matchFront_lit, matchFront_one (by decide), matchFront_lit,
      matchFront_opt_absent (hquote (· = ' ') _ (by decide)), matchFront_lit, hsecond]
    rfl
  have hresponse : "ptui_checkVC('1','','".toList ++ uin ++ "'".toList = "ptui_checkVC('".toList ++ ('1' :: ("',".toList ++
      ("'".toList ++ ([] ++ ("',".toList ++ ("'".toList ++ (uin ++ "'".toList))))))) := by simp
  rw [hresponse, storedUin, Regex.search_of_matchFront hall]
  exact congrArg some (append_nil uin)

theorem uinRounds_of_le (hn : n ≤ 9) :
    uinRounds uin n = some ((range n).map (uinByte uin) ++ replicate (9 - n) '\x00') := by
  induction n with
  | zero => rfl
  | succ n ih =>
    have hrep : replicate (9 - n) '\x00' = '\x00' :: replicate (9 - (n + 1)) '\x00' := by
      rw [← replicate_succ, show 9 - n = 9 - (n + 1) + 1 by omega]
    rw [uinRounds, ih (by omega), hrep, range_succ]
    simp only [bind, Option.bind, if_pos (show n < 9 by omega)]
    rw [set_append_right _ _ (by simp)]
    simp

theorem uinRounds_of_lt (hn : 9 < n) : uinRounds uin n = none := by
  induction n with
  | zero => omega
  | succ n ih =>
    rw [uinRounds]
    by_cases hmore : 9 < n
    · rw [ih hmore]
      rfl
    · obtain rfl : n = 9 := by omega
      rw [uinRounds_of_le (le_refl 9)]
      rfl

theorem uinDecode_safe_iff (uin : Str) : (∃ s, uinDecode uin = some s ∧ s.length = 8) ↔ uinByteLength uin ≤ 9 := by
  unfold uinDecode
  by_cases hle : (uinByteLength uin).toNat ≤ 9
  · have hlen : ((range (uinByteLength uin).toNat).map (uinByte uin) ++
        replicate (9 - (uinByteLength uin).toNat) '\x00').length = 9 := by
      simp
      omega
    rw [uinRounds_of_le hle]
    refine iff_of_true ⟨_, rfl, ?_⟩ (by omega)
    rw [length_take, hlen]
    rfl
  · rw [uinRounds_of_lt (by omega)]
    refine iff_of_false ?_ (by omega)
    rintro ⟨s, hs, -⟩
    cases hs

/-- A text with a backslash, an `x` and two hexadecimal digits for each byte. -/
def HexText : List Nat → Str → Prop
  | [], t => t = []
  | b :: bs, t => ∃ d e rest, t = '\\' :: 'x' :: d :: e :: rest ∧ hexDigit d = some (b / 16) ∧ hexDigit e = some (b % 16) ∧
      HexText bs rest

theorem HexText.length_eq (ht : HexText bs t) : t.length = 4 * bs.length := by
  induction bs generalizing t with
  | nil => rw [show t = [] from ht]; rfl
  | cons b bs ih =>
    obtain ⟨d, e, rest, rfl, -, -, hrest⟩ := ht
    simp [ih hrest]
    omega

theorem HexText.digits (ht : HexText bs t) (hi : i < bs.length) :
    ∃ d e, (t.drop (i * 4 + 2)).take 2 = [d, e] ∧ hexDigit d = some (bs[i] / 16) ∧ hexDigit e = some (bs[i] % 16) := by
  induction bs generalizing t i with
  | nil => simp at hi
  | cons b bs ih =>
    obtain ⟨d, e, rest, rfl, hd, he, hrest⟩ := ht
    cases i with
    | zero => exact ⟨d, e, rfl, hd, he⟩
    | succ i =>
      have hnext := ih hrest (lt_of_succ_lt_succ hi)
      rw [show (i + 1) * 4 + 2 = i * 4 + 2 + 4 by omega, drop_succ_cons, drop_succ_cons, drop_succ_cons, drop_succ_cons]
      exact hnext

theorem strtol16_digits {d e : Char} {a b : Nat} (hd : hexDigit d = some a) (he : hexDigit e = some b) :
    strtol16 [d, e] = (16 * a + b : Nat) := by
  have hdhex : isHexDigit d = true := by simp [isHexDigit, hd]
  have hehex : isHexDigit e = true := by simp [isHexDigit, he]
  have hminus : d ≠ '-' := ne_of_isHexDigit hdhex (by decide)
  have hplus : d ≠ '+' := ne_of_isHexDigit hdhex (by decide)
  have hspace : [d, e].dropWhile Str.isSpace = [d, e] := by simp [not_isSpace_of_isHexDigit hdhex]
  have hskip : skipPrefix [d, e] = [d, e] := by
    unfold skipPrefix
    split
    case h_1 heq => cases heq
    case h_2 => rfl
  unfold strtol16
  simp [hspace, hminus, hplus, hskip, hdhex, hehex, hexValue, hd, he]

theorem uinByte_of_hexText (ht : HexText bs t) (hi : i < bs.length) : uinByte t i = Char.ofNat bs[i] := by
  obtain ⟨d, e, htake, hd, he⟩ := ht.digits hi
  have hzero : [d, e].takeWhile (· ≠ '\x00') = [d, e] := by
    have hdne : d ≠ '\x00' := ne_of_isHexDigit (by simp [isHexDigit, hd]) (by decide)
    have hene : e ≠ '\x00' := ne_of_isHexDigit (by simp [isHexDigit, he]) (by decide)
    simp [hdne, hene]
  have hbyte : bs[i] < 256 := by
    have hhigh := hexDigit_lt hd
    omega
  rw [uinByte, htake, hzero, strtol16_digits hd he]
  congr 1
  omega

theorem uinDecode_hexText (hlen : bs.length = 8) (ht : HexText bs t) : uinDecode t = some (bs.map Char.ofNat) := by
  have hrounds : uinByteLength t = 8 := by
    rw [uinByteLength, ht.length_eq, hlen]
    rfl
  have hbytes : (range 8).map (uinByte t) = bs.map Char.ofNat := by
    apply ext_getElem
    · simp [hlen]
    · intro i hi _
      simpa using uinByte_of_hexText ht (by simpa [hlen] using hi)
  rw [uinDecode, hrounds, show (8 : Int).toNat = 8 from rfl, uinRounds_of_le (by decide), hbytes]
  simp [hlen]

/-- `uin_decode` stays in its buffer and answers eight bytes for exactly those stored texts that have at most nine times four characters and up to three more, or so many that their number is negative as an `int`. -/
theorem uinDecode_spec {response uin : Str} (hstored : storedUin response = some uin) :
    (∀ c ∈ uin, isUinChar c = true) ∧
    ((∃ s, uinDecode uin = some s ∧ s.length = 8) ↔ uin.length / 4 % 4294967296 ≤ 9 ∨ 2147483648 ≤ uin.length / 4 % 4294967296) ∧
    ∀ bs t, bs.length = 8 → HexText bs t → uinDecode t = some (bs.map Char.ofNat) := by
  refine ⟨storedUin_mem hstored, ?_, fun bs t hlen ht => uinDecode_hexText hlen ht⟩
  rw [uinDecode_safe_iff, uinByteLength]
  have hrange := int32_range (uin.length / 4 : Nat)
  have hmod := int32_emod (uin.length / 4 : Nat)
  omega

theorem uinDecode_of_eight_bytes :
    let uin := "\\x00\\x00\\x00\\x00\\x54\\xb3\\x3C\\x53".toList
    (∃ s, uinDecode uin = some s ∧ s.length = 8) ∧
      uinDecode uin = some ([0, 0, 0, 0, 0x54, 0xb3, 0x3c, 0x53].map Char.ofNat) := by
  intro uin
  have hstored : storedUin ("ptui_checkVC('1','','".toList ++ uin ++ "'".toList) = some uin := storedUin_of_forall (by decide)
  refine ⟨(uinDecode_spec hstored).2.1.mpr (by decide), (uinDecode_spec hstored).2.2 _ _ rfl ?_⟩
  repeat' first | exact rfl | refine ⟨_, _, _, rfl, by decide, by decide, ?_⟩

/-- A text of forty characters is stored, and the tenth byte is written behind the buffer. -/
theorem forty_characters_overflow :
    let uin := replicate 40 '0'
    storedUin ("ptui_checkVC('1','','".toList ++ uin ++ "'".toList) = some uin ∧ uinDecode uin = none := by
  refine ⟨storedUin_of_forall (by decide), ?_⟩
  rfl

end Webqq

end Avbot
