import Avbot.Http.Hex

/-!
# Percent encoding

`escape_string` keeps the unreserved characters and writes every other byte as `%` with two digits. `unescape_path` has a larger table of characters that it leaves alone.
-/

namespace Avbot.Http

open List

def isUnreservedChar (c : Char) : Bool :=
  c.isUpper || c.isLower || c.isDigit || c == '-' || c == '_' || c == '.' || c == '~'

def escapeString (s : Str) : Str := s.flatMap fun c => if isUnreservedChar c then [c] else '%' :: toHex [c]

/-- The characters besides letters and digits that `unescape_path` leaves as they are. -/
def keptChars : Str := "-_.~!*'();:@&=+$,/?#[]".toList

/-- `unescape_path`: what it returns, and `out`, which has what was read before it gave up. -/
def unescapePath : Str → Bool × Str
  | [] => (true, [])
  | '%' :: d :: e :: rest =>
    match hexDigit d, hexDigit e with
    | some high, some low =>
      let (ok, out) := unescapePath rest
      (ok, Char.ofNat (16 * high + low) :: out)
    | _, _ => (false, [])
  | c :: rest =>
    if keptChars.contains c ∨ c.isAlphanum then
      let (ok, out) := unescapePath rest
      (ok, c :: out)
    else (false, [])

example : unescapePath "a%22b%4".toList = (false, "a\"b".toList) := by decide

/-- Unreserved characters, and `%` with two small hexadecimal digits. -/
inductive PercentEncoded : Str → Prop where
  | nil : PercentEncoded []
  | char {c : Char} {s : Str} (hc : isUnreservedChar c = true) (hs : PercentEncoded s) : PercentEncoded (c :: s)
  | octet {d e : Char} {s : Str} (hd : d ∈ hexChars) (he : e ∈ hexChars) (hs : PercentEncoded s) :
      PercentEncoded ('%' :: d :: e :: s)

theorem unescapePath_kept {c : Char} (hpercent : c ≠ '%') (hc : keptChars.contains c ∨ c.isAlphanum) (rest : Str) :
    unescapePath (c :: rest) = ((unescapePath rest).1, c :: (unescapePath rest).2) := by
  rw [unescapePath, if_pos hc]
  intro d e tail heq
  exact absurd heq hpercent

theorem unescapePath_octet {d e : Char} {high low : Nat} (hd : hexDigit d = some high) (he : hexDigit e = some low)
    (rest : Str) :
    unescapePath ('%' :: d :: e :: rest) =
      ((unescapePath rest).1, Char.ofNat (16 * high + low) :: (unescapePath rest).2) := by
  rw [unescapePath, hd, he]

theorem kept_of_isUnreservedChar {c : Char} (hc : isUnreservedChar c = true) :
    c ≠ '%' ∧ (keptChars.contains c ∨ c.isAlphanum) := by
  refine ⟨?_, ?_⟩
  · rintro rfl
    exact absurd hc (by decide)
  · simp only [isUnreservedChar, Bool.or_eq_true, beq_iff_eq] at hc
    rcases hc with ((((halnum | rfl) | rfl) | rfl) | rfl)
    · right
      have hcases : (c.isUpper || c.isLower || c.isDigit) = true := by simpa using halnum
      exact hcases
    all_goals exact .inl (by decide)

theorem digitOf_mem {d : Nat} (hd : d < 16) : digitOf hexChars d ∈ hexChars := by
  have hall : ∀ d < 16, digitOf hexChars d ∈ hexChars := by decide
  exact hall d hd

theorem escapeString_cons (c : Char) (s : Str) :
    escapeString (c :: s) =
      if isUnreservedChar c then c :: escapeString s
      else '%' :: digitOf hexChars (c.toNat / 16) :: digitOf hexChars (c.toNat % 16) :: escapeString s := by
  rw [escapeString, flatMap_cons]
  split
  · rfl
  · rfl

theorem percentEncoded_escapeString {s : Str} (hs : ∀ c ∈ s, c.toNat < 256) : PercentEncoded (escapeString s) := by
  induction s with
  | nil => exact .nil
  | cons c s ih =>
    have hrest := ih fun d hd => hs d (mem_cons_of_mem c hd)
    have hbyte := hs c mem_cons_self
    rw [escapeString_cons]
    split
    case isTrue hc => exact .char hc hrest
    case isFalse => exact .octet (digitOf_mem (by omega)) (digitOf_mem (by omega)) hrest

theorem unescapePath_escapeString {s : Str} (hs : ∀ c ∈ s, c.toNat < 256) :
    unescapePath (escapeString s) = (true, s) := by
  induction s with
  | nil => rfl
  | cons c s ih =>
    have hrest := ih fun d hd => hs d (mem_cons_of_mem c hd)
    have hbyte := hs c mem_cons_self
    rw [escapeString_cons]
    split
    case isTrue hc =>
      obtain ⟨hpercent, hkept⟩ := kept_of_isUnreservedChar hc
      rw [unescapePath_kept hpercent hkept, hrest]
    case isFalse =>
      have hhigh : c.toNat / 16 < 16 := by omega
      have hlow : c.toNat % 16 < 16 := by omega
      rw [unescapePath_octet (hexDigit_lower hhigh) (hexDigit_lower hlow), hrest, Nat.div_add_mod, Char.ofNat_toNat]

/-- `escape_string` writes a percent-encoded text, and `unescape_path` reads it back. -/
theorem escapeString_reads_back {s : Str} (hs : ∀ c ∈ s, c.toNat < 256) :
    PercentEncoded (escapeString s) ∧ unescapePath (escapeString s) = (true, s) :=
  ⟨percentEncoded_escapeString hs, unescapePath_escapeString hs⟩

theorem escapeString_reads_back_sample :
    escapeString "a b%\x00\xff".toList = "a%20b%25%00%ff".toList ∧
      PercentEncoded (escapeString "a b%\x00\xff".toList) ∧
      unescapePath (escapeString "a b%\x00\xff".toList) = (true, "a b%\x00\xff".toList) :=
  ⟨by decide, escapeString_reads_back (by decide)⟩

end Avbot.Http
