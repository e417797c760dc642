import Mathlib.Data.Nat.Bitwise
import Avbot.Http.Hex

/-!
# The hash of the uin

`hash_func_u` is a translation of a function of the web client. Both write the uin over and over until the text is as long as `ptwebqq` with "password error" behind it, and take the exclusive or of the two. The web client has capital letters among its digits, `to_hex` small ones.
-/

namespace Avbot

open List Nat
open Http (digitOf hexChars toHex upperHexChars)

namespace Webqq

def charCode (s : Str) (i : Nat) : Nat := (s.getD i '\x00').toNat

/-- The first loop, which is the same in both: `T` grows by a uin at a time and is cut if it is too long. With an empty uin it does not end. -/
def repeatUin (uin : Str) (hne : uin ≠ []) (len : Nat) (T : Str) : Str :=
  if T.length ≤ len then
    let T' := T ++ uin
    if T'.length = len then T' else repeatUin uin hne len T'
  else T.take len
termination_by len + 1 - T.length
decreasing_by
  have hpos : 0 < uin.length := length_pos_iff.mpr hne
  simp only [length_append]
  omega

def passwordError : Str := "password error".toList

def hashFuncU (uin ptwebqq : Str) (hne : uin ≠ []) : Str :=
  let N := ptwebqq ++ passwordError
  let T := repeatUin uin hne N.length []
  -- U is an int: after 2^31 - 1 it is negative, which is no index, and the other bytes stay zero
  let V := (List.range T.length).map fun U => if U < 2 ^ 31 then (charCode T U ^^^ charCode N U) % 256 else 0
  toHex (V.map Char.ofNat)

def jsU (uin ptwebqq : Str) (hne : uin ≠ []) : Str :=
  let N := ptwebqq ++ passwordError
  let T := repeatUin uin hne N.length []
  let V := (List.range T.length).map fun U => charCode T U ^^^ charCode N U
  V.flatMap fun x => [digitOf upperHexChars (x >>> 4 &&& 15), digitOf upperHexChars (x &&& 15)]

def cycle (s : Str) (n : Nat) : Str := (List.range n).map fun i => s.getD (i % s.length) '\x00'

@[simp] theorem length_cycle (s : Str) (n : Nat) : (cycle s n).length = n := by simp [cycle]

variable {s uin : Str} {n : Nat}

theorem take_cycle {k : Nat} (hle : n ≤ k) : (cycle s k).take n = cycle s n := by
  rw [cycle, cycle, ← map_take, take_range, min_eq_left hle]

theorem cycle_append (k : Nat) : cycle s (k * s.length) ++ s = cycle s ((k + 1) * s.length) := by
  rw [add_one_mul, cycle, cycle, range_add, map_append, map_map]
  congr 1
  apply ext_getElem
  · simp
  · intro i hi _
    simp [mod_eq_of_lt hi, hi]

theorem repeatUin_eq_cycle (hne : uin ≠ []) (len : Nat) : repeatUin uin hne len [] = cycle uin len := by
  have hloop : ∀ T k, T = cycle uin (k * uin.length) → repeatUin uin hne len T = cycle uin len := by
    intro T
    induction T using repeatUin.induct uin hne len with
    | case1 T hle T' hfull =>
      intro k hT
      have hT' : T' = cycle uin ((k + 1) * uin.length) := by rw [← cycle_append, ← hT]
      have hlen : (k + 1) * uin.length = len := by simpa [hT'] using hfull
      rw [repeatUin, if_pos hle, if_pos hfull, ← hlen]
      exact hT'
    | case2 T hle T' hshort ih =>
      intro k hT
      rw [repeatUin, if_pos hle, if_neg hshort]
      apply ih (k + 1)
      rw [← cycle_append, ← hT]
    | case3 T hlong =>
      intro k hT
      rw [repeatUin, if_neg hlong, hT]
      apply take_cycle
      rw [hT, length_cycle] at hlong
      omega
  exact hloop [] 0 (by simp [cycle])

theorem flatMap_eq_flatMap_iff {α β : Type} {l : List α} {f g : α → List β} (hlen : ∀ a, (f a).length = (g a).length) :
    l.flatMap f = l.flatMap g ↔ ∀ a ∈ l, f a = g a := by
  induction l with
  | nil => simp
  | cons a l ih =>
    rw [flatMap_cons, flatMap_cons, forall_mem_cons, ← ih]
    constructor
    · intro heq
      exact append_inj heq (hlen a)
    · intro ⟨hfirst, hrest⟩
      rw [hfirst, hrest]

def lowerPair (x : Nat) : Str := [digitOf hexChars (x / 16), digitOf hexChars (x % 16)]

def upperPair (x : Nat) : Str :=
  [digitOf upperHexChars (x >>> 4 &&& 15), digitOf upperHexChars (x &&& 15)]

theorem length_lowerPair_eq (x y : Nat) : (lowerPair x).length = (upperPair y).length := by
  simp [lowerPair, upperPair]

theorem upperPair_eq (x : Nat) :
    upperPair x = [digitOf upperHexChars (x / 16 % 16), digitOf upperHexChars (x % 16)] := by
  have hlow : x &&& 15 = x % 16 := and_two_pow_sub_one_eq_mod x 4
  have hhigh : x >>> 4 &&& 15 = x / 16 % 16 := by
    rw [shiftRight_eq_div_pow]
    exact and_two_pow_sub_one_eq_mod (x / 16) 4
  rw [upperPair, hlow, hhigh]

theorem lowerPair_eq_upperPair_iff {y x : Nat} (hy : y < 128) (hx : x < 128) :
    lowerPair y = upperPair x ↔ y = x ∧ x % 16 < 10 := by
  rw [upperPair_eq, lowerPair]
  simp only [cons.injEq, and_true]
  rw [Http.digitOf_lower_eq_upper_iff (by omega) (by omega), Http.digitOf_lower_eq_upper_iff (by omega) (by omega)]
  omega

theorem toHex_map_ofNat {V : List Nat} (hV : ∀ x ∈ V, x < 256) : toHex (V.map Char.ofNat) = V.flatMap lowerPair := by
  rw [toHex, flatMap_map]
  apply flatMap_congr
  intro x hx
  rw [Http.toNat_ofNat_of_lt (hV x hx), lowerPair]

def mixed (uin ptwebqq : Str) (i : Nat) : Nat := charCode uin (i % uin.length) ^^^ charCode (ptwebqq ++ passwordError) i

theorem charCode_cycle {i : Nat} (hi : i < n) : charCode (cycle s n) i = charCode s (i % s.length) := by
  simp [charCode, cycle, hi]

theorem charCode_lt (hascii : ∀ c ∈ s, c.toNat < 128) (i : Nat) : charCode s i < 128 := by
  rw [charCode, getD_eq_getElem?_getD]
  cases hget : s[i]? with
  | none => decide
  | some c => exact hascii c (mem_of_getElem? hget)

theorem mixed_lt {ptwebqq : Str} (huin : ∀ c ∈ uin, c.toNat < 128) (hptwebqq : ∀ c ∈ ptwebqq, c.toNat < 128) (i : Nat) :
    mixed uin ptwebqq i < 128 := by
  have hfixed : ∀ c ∈ passwordError, c.toNat < 128 := by decide
  have hN : ∀ c ∈ ptwebqq ++ passwordError, c.toNat < 128 := by
    intro c hc
    rcases mem_append.mp hc with hc | hc
    · exact hptwebqq c hc
    · exact hfixed c hc
  exact xor_lt_two_pow (n := 7) (charCode_lt huin _) (charCode_lt hN i)

def byteAt (uin ptwebqq : Str) (i : Nat) : Nat := if i < 2 ^ 31 then mixed uin ptwebqq i % 256 else 0

theorem hashFuncU_eq (uin ptwebqq : Str) (hne : uin ≠ []) :
    hashFuncU uin ptwebqq hne =
      (range (ptwebqq ++ passwordError).length).flatMap fun i => lowerPair (byteAt uin ptwebqq i) := by
  have hbyte : ∀ i, byteAt uin ptwebqq i < 256 := by
    intro i
    unfold byteAt
    split
    · exact mod_lt _ (by decide)
    · decide
  have hV : (range (ptwebqq ++ passwordError).length).map (fun U => if U < 2 ^ 31 then
      (charCode (cycle uin (ptwebqq ++ passwordError).length) U ^^^ charCode (ptwebqq ++ passwordError) U) % 256 else 0) =
      (range (ptwebqq ++ passwordError).length).map (byteAt uin ptwebqq) := by
    apply map_congr_left
    intro i hi
    rw [charCode_cycle (mem_range.mp hi)]
    rfl
  unfold hashFuncU
  simp only [repeatUin_eq_cycle, length_cycle]
  rw [hV, toHex_map_ofNat (by simpa using fun i _ => hbyte i), flatMap_map]

theorem jsU_eq (uin ptwebqq : Str) (hne : uin ≠ []) :
    jsU uin ptwebqq hne = (range (ptwebqq ++ passwordError).length).flatMap fun i => upperPair (mixed uin ptwebqq i) := by
  unfold jsU
  simp only [repeatUin_eq_cycle, length_cycle, flatMap_map]
  apply flatMap_congr
  intro i hi
  rw [charCode_cycle (mem_range.mp hi)]
  rfl

/-- The translation is right exactly where no digit is a letter. Beyond the range of `int` it writes zeros. -/
theorem hashFuncU_eq_jsU_iff {uin ptwebqq : Str} (hne : uin ≠ []) (huin : ∀ c ∈ uin, c.toNat < 128)
    (hptwebqq : ∀ c ∈ ptwebqq, c.toNat < 128) :
    hashFuncU uin ptwebqq hne = jsU uin ptwebqq hne ↔
      ∀ i < (ptwebqq ++ passwordError).length,
        (charCode uin (i % uin.length) ^^^ charCode (ptwebqq ++ passwordError) i) % 16 < 10 ∧
          (2 ^ 31 ≤ i → charCode uin (i % uin.length) = charCode (ptwebqq ++ passwordError) i) := by
  rw [hashFuncU_eq, jsU_eq]
  have hlen : ∀ i, (lowerPair (byteAt uin ptwebqq i)).length = (upperPair (mixed uin ptwebqq i)).length :=
    fun i => length_lowerPair_eq _ _
  rw [flatMap_eq_flatMap_iff hlen]
  simp only [mem_range]
  apply forall_congr'
  intro i
  apply imp_congr_right
  intro _
  have hlt := mixed_lt huin hptwebqq i
  unfold byteAt
  split
  case isTrue hsmall =>
    rw [mod_eq_of_lt (by omega : mixed uin ptwebqq i < 256), lowerPair_eq_upperPair_iff hlt hlt]
    have hbound : ¬ 2 ^ 31 ≤ i := not_le.mpr hsmall
    simp only [hbound, false_implies, and_true, true_and]
    rfl
  case isFalse hlarge =>
    rw [lowerPair_eq_upperPair_iff (by decide) hlt]
    have hxor : 0 = mixed uin ptwebqq i ↔ charCode uin (i % uin.length) = charCode (ptwebqq ++ passwordError) i := by
      rw [eq_comm, mixed, xor_eq_zero_iff]
    rw [hxor, and_comm]
    apply and_congr_right
    intro _
    exact ⟨fun heq _ => heq, fun h => h (Nat.le_of_not_lt hlarge)⟩

/-- A uin that is the text itself: every byte is zero. -/
theorem hashFuncU_eq_jsU_of_password_error :
    hashFuncU passwordError [] (by decide) = jsU passwordError [] (by decide) :=
  (hashFuncU_eq_jsU_iff (by decide) (by decide) (by decide)).mpr (by decide)

/-- The sixth byte for the uin "1" is 0x5e, and the letter is written small. -/
theorem hashFuncU_one_small_letter :
    hashFuncU ['1'] [] (by decide) = "41504242465e4355115443435e43".toList ∧ hashFuncU ['1'] [] (by decide) ≠ jsU ['1'] [] (by decide) := by
  rw [hashFuncU_eq, jsU_eq]
  decide

end Webqq

end Avbot
