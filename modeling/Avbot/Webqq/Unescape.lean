import Avbot.Http.Hex
import Avbot.Lib.Utf16

/-!
# Characters of a message as escapes

A message is sent as a sequence of escapes, two backslashes, a `u` and four hexadecimal digits each. `parse_unescape` prints each code point into a buffer of eight characters; one that needs five digits or six loses what does not fit.
-/

namespace Avbot

open List Char

namespace Webqq

/-- `boost::u8_to_u32_iterator` on the bytes that are left: the code point at its place and the bytes after it. Where there is no answer it throws `std::out_of_range`. -/
structure U8Iterator where
  deref : Str → Option Nat
  next : Str → Option Str
  next_lt : ∀ {s s' : Str}, next s = some s' → s'.length < s.length

def utf8 (cs : List Char) : Str := (cs.flatMap String.utf8EncodeChar).map fun b => ofNat b.toNat

def U8Iterator.Correct (it : U8Iterator) : Prop :=
  ∀ c cs, it.deref (utf8 (c :: cs)) = some c.toNat ∧ it.next (utf8 (c :: cs)) = some (utf8 cs)

def hexPlaces (n : Nat) : List Nat :=
  [n / 0x10000000 % 16, n / 0x1000000 % 16, n / 0x100000 % 16, n / 0x10000 % 16, n / 0x1000 % 16, n / 0x100 % 16,
    n / 0x10 % 16, n % 16]

/-- `printf("%04X")`: leading zeros are left out as long as there are more than four digits. -/
def format04X (n : Nat) : Str :=
  (((hexPlaces n).take 4).dropWhile (· = 0) ++ (hexPlaces n).drop 4).map (Http.digitOf Http.upperHexChars)

def escape (codePoint : Nat) : Str := ("\\\\u".toList ++ format04X codePoint).take 7

def unescapeLoop (it : U8Iterator) (source result : Str) : Str :=
  if source = [] then result
  else
    match it.deref source with
    | none => result ++ "broken encode sended".toList
    | some codePoint =>
      let result := result ++ escape codePoint
      match _hnext : it.next source with
      | none => result ++ "broken encode sended".toList
      | some rest => unescapeLoop it rest result
termination_by source.length
decreasing_by exact it.next_lt _hnext

def parseUnescape (it : U8Iterator) (source : Str) : Str := unescapeLoop it source []

def Escapes : List Nat → Str → Prop
  | [], t => t = []
  | u :: us, t => ∃ digits rest, t = "\\\\u".toList ++ digits ++ rest ∧ digits.length = 4 ∧
      (∀ d ∈ digits, Http.isHexDigit d = true) ∧ Http.hexValue digits = u ∧ Escapes us rest

def Reads (t : Str) (cs : List Char) : Prop := ∃ units, Escapes units t ∧ Utf16.decode units = some cs

theorem utf8_cons (c : Char) (cs : List Char) :
    utf8 (c :: cs) = (String.utf8EncodeChar c).map (fun b => ofNat b.toNat) ++ utf8 cs := by
  simp [utf8]

theorem utf8_cons_ne_nil (c : Char) (cs : List Char) : utf8 (c :: cs) ≠ [] := by
  have hpos : 0 < (String.utf8EncodeChar c).length := by
    rw [String.length_utf8EncodeChar]
    exact c.utf8Size_pos
  rw [utf8_cons]
  simp only [ne_eq, append_eq_nil_iff, map_eq_nil_iff, not_and]
  intro hnil
  rw [hnil] at hpos
  exact absurd hpos (by decide)

variable {it : U8Iterator} {n : Nat}

theorem unescapeLoop_utf8 (hit : it.Correct) (cs : List Char) (result : Str) :
    unescapeLoop it (utf8 cs) result = result ++ cs.flatMap fun c => escape c.toNat := by
  induction cs generalizing result with
  | nil =>
    rw [unescapeLoop, if_pos (by rfl)]
    simp
  | cons c cs ih =>
    obtain ⟨hderef, hnext⟩ := hit c cs
    rw [unescapeLoop, if_neg (utf8_cons_ne_nil c cs), hderef]
    dsimp only
    split
    case h_1 hnone =>
      rw [hnext] at hnone
      cases hnone
    case h_2 rest hrest =>
      rw [hnext] at hrest
      cases hrest
      rw [ih, flatMap_cons, append_assoc]

theorem parseUnescape_utf8 (hit : it.Correct) (cs : List Char) :
    parseUnescape it (utf8 cs) = cs.flatMap fun c => escape c.toNat :=
  unescapeLoop_utf8 hit cs []

theorem length_escape (n : Nat) : (escape n).length = 7 := by
  have hlen : 4 ≤ (format04X n).length := by
    simp [format04X, hexPlaces]
  rw [escape, length_take, length_append]
  exact Nat.min_eq_left (Nat.add_le_add_left hlen 3)

theorem Escapes.length_eq {us : List Nat} {t : Str} (ht : Escapes us t) : t.length = 7 * us.length := by
  induction us generalizing t with
  | nil => rw [show t = [] from ht]; rfl
  | cons u us ih =>
    obtain ⟨digits, rest, rfl, hfour, -, -, hrest⟩ := ht
    have hthree : "\\\\u".toList.length = 3 := rfl
    rw [length_append, length_append, hthree, hfour, ih hrest, length_cons]
    omega

theorem length_flatMap_escape (cs : List Char) : (cs.flatMap fun c => escape c.toNat).length = 7 * cs.length := by
  simp [length_flatMap, length_escape, Nat.mul_comm]

theorem format04X_of_lt (hn : n < 0x10000) :
    format04X n = [n / 0x1000 % 16, n / 0x100 % 16, n / 0x10 % 16, n % 16].map (Http.digitOf Http.upperHexChars) := by
  have hfront : (hexPlaces n).take 4 = [0, 0, 0, 0] := by
    simp only [hexPlaces, take_succ_cons, take_zero, List.cons.injEq, and_true]
    omega
  rw [format04X, hfront]
  rfl

theorem isHexDigit_upper {d : Nat} (hd : d < 16) : Http.isHexDigit (Http.digitOf Http.upperHexChars d) = true := by
  rw [Http.isHexDigit, Http.hexDigit_upper hd]
  rfl

theorem hexValue_format04X (hn : n < 0x10000) : Http.hexValue (format04X n) = n := by
  have hdigit : ∀ m, Http.hexDigit (Http.digitOf Http.upperHexChars (m % 16)) = some (m % 16) :=
    fun m => Http.hexDigit_upper (Nat.mod_lt m (by decide))
  rw [format04X_of_lt hn]
  simp only [Http.hexValue, map_cons, map_nil, foldl_cons, foldl_nil, hdigit, Option.getD_some]
  omega

theorem escapes_of_lt {cs : List Char} (hcs : ∀ c ∈ cs, c.toNat < 0x10000) :
    Escapes (cs.map toNat) (cs.flatMap fun c => escape c.toNat) := by
  induction cs with
  | nil => rfl
  | cons c cs ih =>
    have hc := hcs c mem_cons_self
    have hfour : (format04X c.toNat).length = 4 := by rw [format04X_of_lt hc]; rfl
    have hwhole : escape c.toNat = "\\\\u".toList ++ format04X c.toNat := by
      apply take_of_length_le
      rw [length_append, hfour]
      decide
    refine ⟨format04X c.toNat, cs.flatMap fun c => escape c.toNat, ?_, hfour, ?_, hexValue_format04X hc, ?_⟩
    · rw [flatMap_cons, hwhole]
    · rw [format04X_of_lt hc]
      simp only [forall_mem_map]
      intro d hd
      apply isHexDigit_upper
      simp only [mem_cons, not_mem_nil, or_false] at hd
      omega
    · exact ih fun d hd => hcs d (mem_cons_of_mem c hd)

/-- The escapes of a message can be read back exactly when no character needs more than four digits. -/
theorem reads_parseUnescape_iff {it : U8Iterator} (hit : it.Correct) (cs : List Char) :
    Reads (parseUnescape it (utf8 cs)) cs ↔ ∀ c ∈ cs, c.toNat < 0x10000 := by
  rw [parseUnescape_utf8 hit]
  constructor
  · rintro ⟨units, hescapes, hdecode⟩
    -- every escape has seven characters, so there are as many units as characters
    have hlength := hescapes.length_eq
    rw [length_flatMap_escape] at hlength
    exact (Utf16.length_of_decode hdecode).2 (by omega)
  · intro hcs
    exact ⟨cs.map toNat, escapes_of_lt hcs, Utf16.decode_map_toNat hcs⟩

def toBytes (s : Str) : ByteArray := (s.map fun c => UInt8.ofNat c.toNat).toByteArray

def frontChar (s : Str) : Option Char := (toBytes s).utf8DecodeChar? 0

theorem frontChar_utf8 (c : Char) (cs : List Char) : frontChar (utf8 (c :: cs)) = some c := by
  have hbyte : ∀ b : UInt8, UInt8.ofNat (ofNat b.toNat).toNat = b := by
    intro b
    rw [Http.toNat_ofNat_of_lt b.toNat_lt, UInt8.ofNat_toNat]
  have hbytes : toBytes (utf8 (c :: cs)) = (String.utf8EncodeChar c).toByteArray ++ toBytes (utf8 cs) := by
    rw [utf8_cons, toBytes, toBytes, map_append, map_map, toByteArray_append]
    congr 2
    exact map_id'' hbyte _
  rw [frontChar, hbytes]
  exact ByteArray.utf8DecodeChar?_utf8EncodeChar_append

def decodingIterator : U8Iterator where
  deref s := (frontChar s).map toNat
  next s := if s = [] then none else (frontChar s).map fun c => s.drop c.utf8Size
  next_lt := by
    intro s s' hnext
    split at hnext
    case isTrue => cases hnext
    case isFalse hne =>
      obtain ⟨c, -, rfl⟩ := Option.map_eq_some_iff.mp hnext
      have hpos := c.utf8Size_pos
      have hlen := length_pos_iff.mpr hne
      rw [length_drop]
      omega

theorem decodingIterator_correct : decodingIterator.Correct := by
  intro c cs
  have hsize : (utf8 (c :: cs)).drop c.utf8Size = utf8 cs := by
    rw [utf8_cons]
    apply drop_left'
    rw [length_map, String.length_utf8EncodeChar]
  refine ⟨?_, ?_⟩
  · simp only [decodingIterator, frontChar_utf8, Option.map_some]
  · simp only [decodingIterator, frontChar_utf8, Option.map_some, utf8_cons_ne_nil, if_false, hsize]

theorem reads_three_characters : Reads (parseUnescape decodingIterator (utf8 ['α', 'a', '你'])) ['α', 'a', '你'] :=
  (reads_parseUnescape_iff decodingIterator_correct _).mpr (by decide)

/-- The code point 0x1F600 is sent as the escape of 0x1F60. -/
theorem smiley_loses_digit :
    parseUnescape decodingIterator (utf8 [ofNat 0x1F600]) = "\\\\u1F60".toList ∧
      ¬ Reads (parseUnescape decodingIterator (utf8 [ofNat 0x1F600])) [ofNat 0x1F600] := by
  have htext : parseUnescape decodingIterator (utf8 [ofNat 0x1F600]) = "\\\\u1F60".toList := by
    rw [parseUnescape_utf8 decodingIterator_correct]
    decide
  refine ⟨htext, ?_⟩
  rw [htext]
  rintro ⟨units, hescapes, hdecode⟩
  have hlength : 7 = 7 * units.length := hescapes.length_eq
  have hlow := (Utf16.length_of_decode hdecode).2 (by simp; omega) _ mem_cons_self
  exact absurd hlow (by decide)

end Webqq

end Avbot
