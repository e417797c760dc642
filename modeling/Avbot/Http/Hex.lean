import Avbot.Http.Chunked

/-!
# Bytes as hexadecimal text

`to_hex` writes every byte of a string with two digits, and its letters are small; those of `printf("%X")` are capital. `hexDigit` reads both.
-/

namespace Avbot.Http

open Option

def hexChars : Str := "0123456789abcdef".toList

def upperHexChars : Str := "0123456789ABCDEF".toList

def digitOf (table : Str) (d : Nat) : Char := table.getD d '\x00'

def toHex (s : Str) : Str := s.flatMap fun c => [digitOf hexChars (c.toNat / 16), digitOf hexChars (c.toNat % 16)]

theorem hexDigit_lower {d : Nat} (hd : d < 16) : hexDigit (digitOf hexChars d) = some d := by
  have hall : ∀ d < 16, hexDigit (digitOf hexChars d) = some d := by decide
  exact hall d hd

theorem hexDigit_upper {d : Nat} (hd : d < 16) : hexDigit (digitOf upperHexChars d) = some d := by
  have hall : ∀ d < 16, hexDigit (digitOf upperHexChars d) = some d := by decide
  exact hall d hd

theorem hexDigit_lt {c : Char} {d : Nat} (hd : hexDigit c = some d) : d < 16 := by
  unfold hexDigit at hd
  split_ifs at hd with hdigit hsmall hcapital
  · have hle : c.toNat ≤ 57 := hdigit.2
    have hval : c.toNat - 48 = d := some.inj hd
    omega
  · have hle : c.toNat ≤ 102 := hsmall.2
    have hval : c.toNat - 97 + 10 = d := some.inj hd
    omega
  · have hle : c.toNat ≤ 70 := hcapital.2
    have hval : c.toNat - 65 + 10 = d := some.inj hd
    omega

theorem digitOf_lower_eq_upper_iff {d e : Nat} (hd : d < 16) (he : e < 16) :
    digitOf hexChars d = digitOf upperHexChars e ↔ d = e ∧ d < 10 := by
  have hsame : ∀ d < 16, digitOf hexChars d = digitOf upperHexChars d ↔ d < 10 := by decide
  constructor
  · intro heq
    obtain rfl : d = e := by
      have hread := congrArg hexDigit heq
      rw [hexDigit_lower hd, hexDigit_upper he] at hread
      exact some.inj hread
    exact ⟨rfl, (hsame d hd).mp heq⟩
  · intro ⟨heq, hlow⟩
    rw [← heq]
    exact (hsame d hd).mpr hlow

theorem toNat_ofNat_of_lt {n : Nat} (hn : n < 256) : (Char.ofNat n).toNat = n := by
  have hvalid : n.isValidChar := .inl (by omega)
  rw [Char.ofNat, dif_pos hvalid]
  rfl

end Avbot.Http
