import Avbot.Qqwry.MatchArrays

/-!
# Looking for the regions of a country

`GetIPs` compares the names of each record with two patterns. `MatchRecord` keeps the places of countries and areas that matched before. A country that is given by a redirect of mode 2 is only looked up.
-/

namespace Avbot.Qqwry

open Fallible

structure Matched where
  country : List Nat
  area : List Nat
  deriving DecidableEq

def isStar (exp : Str) : Except Fault Bool := do
  let c ← charAt exp 0
  if c ≠ '*' then return false
  let e ← charAt exp 1
  return e = '\x00'

namespace Ipdb

variable (d : Ipdb)

def matchString (fuel p : Nat) (exp : Str) : Except Fault Bool := do
  let s ← d.getString fuel p
  matchExp fuel (d.file.drop s) exp

def matchArea (fuel : Nat) (expArea : Str) (parea? : Option Nat) (m : Matched) : Except Fault (Bool × Matched) := do
  let star ← isStar expArea
  if star then return (true, m)
  match parea? with
  | none => throw .nullPointer
  | some parea =>
    let mode ← d.read parea
    if mode = redirectMode2 ∨ mode = redirectMode1 then
      let target ← d.get3BYTE (parea + 1)
      if target ∈ m.area then return (true, m)
      let found ← d.matchString fuel parea expArea
      return (found, if found then { m with area := target :: m.area } else m)
    else
      let found ← d.matchString fuel parea expArea
      return (found, if found then { m with area := parea % 16777216 :: m.area } else m)

def matchRecord (expCountry expArea : Str) (m : Matched) : Nat → Nat → Except Fault (Bool × Matched)
  | 0, _ => .error .unfinished
  | fuel + 1, p => do
    let star ← isStar expCountry
    if star then d.matchArea (fuel + 1) expArea none m
    else
      let mode ← d.read p
      if mode = redirectMode1 then
        let target ← d.get3BYTE (p + 1)
        matchRecord expCountry expArea m fuel target
      else if mode = redirectMode2 then
        let target ← d.get3BYTE (p + 1)
        if target ∈ m.country then d.matchArea (fuel + 1) expArea (some (p + 4)) m else return (false, m)
      else
        let country ← d.getString (fuel + 1) p
        let found ← matchExp (fuel + 1) (d.file.drop country) expCountry
        if found then
          let length ← strlen (d.file.drop country)
          d.matchArea (fuel + 1) expArea (some (p + length + 1)) { m with country := country :: m.country }
        else return (false, m)

end Ipdb

theorem isStar_patternArray (pattern : CString) : isStar (patternArray pattern) = .ok (decide (pattern.text = ['*'])) := by
  obtain ⟨text, hzero⟩ := pattern
  cases text with
  | nil => rfl
  | cons c text =>
    have hfirst : charAt (patternArray ⟨c :: text, hzero⟩) 0 = .ok c := rfl
    rw [isStar, hfirst, ok_bind]
    by_cases hc : c = '*'
    · rw [if_neg (not_not.mpr hc)]
      cases text with
      | nil =>
        subst hc
        rfl
      | cons e rest =>
        have hsecond : charAt (patternArray ⟨c :: e :: rest, hzero⟩) 1 = .ok e := rfl
        have he : e ≠ '\x00' := hzero e (by simp)
        rw [hsecond, ok_bind]
        simp [he, pure, Except.pure]
    · simp [hc, pure, Except.pure]

end Avbot.Qqwry
