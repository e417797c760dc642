import Avbot.Base.Text
import Avbot.Lib.Bisection
import Avbot.Lib.Fallible

/-!
# The QQWry database

The file starts with the places of the first and of the last entry of its index. An entry has seven bytes: the first address of a region, and the place of a record, which starts with the last address. Behind that come the country and the area, each a zero-terminated string or a redirect, a byte 1 or 2 with the place of what is meant.

A pointer into the file is its distance from the start. What the source does outside the file, with a null pointer or behind the end of an array is a `Fault`. The functions that follow redirects get the number of calls they may make.
-/

namespace Avbot.Qqwry

inductive Fault where
  | outside
  | nullPointer
  | overflow
  | unfinished
  deriving DecidableEq

/-- The file; its size is kept in a `uint32_t`. -/
structure Ipdb where
  file : Str
  isByte : ∀ c ∈ file, c.toNat < 256
  size_lt : file.length < 4294967296

structure IPLocation where
  country : Str
  area : Str
  deriving DecidableEq

structure RecordIndex where
  ip : Nat
  offset : Nat
  deriving DecidableEq

def redirectMode1 : Char := '\x01'

def redirectMode2 : Char := '\x02'

def arraySize : Nat := 128

def charAt (a : Str) (i : Nat) : Except Fault Char :=
  match a[i]? with
  | some c => .ok c
  | none => .error .outside

namespace Ipdb

variable (d : Ipdb)

def read (p : Nat) : Except Fault Char := charAt d.file p

def getDWORD (p : Nat) : Except Fault Nat := do
  let a ← d.read p
  let b ← d.read (p + 1)
  let c ← d.read (p + 2)
  let e ← d.read (p + 3)
  return a.toNat + 256 * b.toNat + 65536 * c.toNat + 16777216 * e.toNat

/-- `Get3BYTEptr`. A fourth byte is loaded with the three and masked away. -/
def get3BYTE (p : Nat) : Except Fault Nat := do
  let ret ← d.getDWORD p
  return ret % 16777216

def cString (p : Nat) : Except Fault Str :=
  if '\x00' ∈ d.file.drop p then .ok ((d.file.drop p).takeWhile (· ≠ '\x00')) else .error .outside

def strncpy (p : Nat) : Except Fault Str :=
  let front := (d.file.drop p).take arraySize
  if '\x00' ∈ front ∨ front.length = arraySize then .ok (front.takeWhile (· ≠ '\x00')) else .error .outside

def strcpy (p : Nat) : Except Fault Str := do
  let s ← d.cString p
  if arraySize ≤ s.length then throw .overflow
  return s

def getString : Nat → Nat → Except Fault Nat
  | 0, _ => .error .unfinished
  | fuel + 1, p => do
    let mode ← d.read p
    if mode = redirectMode1 then
      let target ← d.get3BYTE (p + 1)
      getString fuel target
    else if mode = redirectMode2 then d.get3BYTE (p + 1)
    else return p

/-- Where the area of a record stands: behind a redirect, or behind the country, which `strcpy` copies once more. -/
def areaptr (mode : Char) (p countryptr : Nat) : Except Fault Nat :=
  if mode = redirectMode2 then .ok (p + 4) else (d.strcpy countryptr).map (p + ·.length + 1)

def getIPLocation : Nat → Nat → Except Fault IPLocation
  | 0, _ => .error .unfinished
  | fuel + 1, p => do
    let mode ← d.read p
    if mode = redirectMode1 then
      let target ← d.get3BYTE (p + 1)
      getIPLocation fuel target
    else
      let countryptr ← d.getString (fuel + 1) p
      let country ← d.strncpy countryptr
      let areaptr ← d.areaptr mode p countryptr
      let area ← d.strncpy (← d.getString (fuel + 1) areaptr)
      return ⟨country, area⟩

def firstRecord : Except Fault Nat := d.getDWORD 0

def lastRecord : Except Fault Nat := d.getDWORD 4

def recordIndex (p : Nat) : Except Fault RecordIndex := do
  let ip ← d.getDWORD p
  let a ← d.read (p + 4)
  let b ← d.read (p + 5)
  let c ← d.read (p + 6)
  return ⟨ip, a.toNat + 256 * b.toNat + 65536 * c.toNat⟩

end Ipdb

def ipInRegon (ip ip1 ip2 : Nat) : Ordering :=
  if ip < ip1 then .lt
  else if ip2 < ip then .gt
  else .eq

namespace Ipdb

variable (d : Ipdb)

def findLoop (first ip : Nat) : Nat → Nat → Nat → Nat → Except Fault (Option Nat)
  | 0, _, _, _ => .ok none
  | rounds + 1, i, l, r => do
    let pindex ← d.recordIndex (first + 7 * i)
    match ipInRegon ip pindex.ip (← d.getDWORD pindex.offset) with
    | .eq => return some pindex.offset
    | .gt =>
      if i + (r - i) / 2 = i then return none
      else findLoop first ip rounds (i + (r - i) / 2) i r
    | .lt => findLoop first ip rounds (i - (i - l) / 2) l i

def findRecord (ip : Nat) : Except Fault (Option Nat) := do
  let first ← d.firstRecord
  let last ← d.lastRecord
  d.findLoop first ip 50 0 0 ((last + 2 ^ 64 - first) % 2 ^ 64 / 7)

end Ipdb

/-- An index of `n` entries that can be read, with the regions. -/
structure Index (d : Ipdb) (n : Nat) where
  first : Nat
  start : Nat → Nat
  offset : Nat → Nat
  last : Nat → Nat
  pos : 0 < n
  firstRecord_eq : d.firstRecord = .ok first
  lastRecord_eq : d.lastRecord = .ok (first + 7 * (n - 1))
  recordIndex_eq : ∀ k < n, d.recordIndex (first + 7 * k) = .ok ⟨start k, offset k⟩
  getDWORD_eq : ∀ k < n, d.getDWORD (offset k) = .ok (last k)

theorem charAt_eq_ok_iff {a : Str} {i : Nat} {c : Char} : charAt a i = .ok c ↔ a[i]? = some c := by
  rw [charAt]
  cases a[i]? with
  | none => simp
  | some e => simp

namespace Ipdb

open Fallible

variable {d : Ipdb} {p v : Nat}

theorem toNat_lt_of_read {c : Char} (hread : d.read p = .ok c) : c.toNat < 256 :=
  d.isByte c (List.mem_of_getElem? (charAt_eq_ok_iff.mp hread))

theorem getDWORD_lt (hget : d.getDWORD p = .ok v) : v < 4294967296 := by
  simp only [getDWORD, bind_eq_ok_iff] at hget
  obtain ⟨a, ha, b, hb, c, hc, e, he, hv⟩ := hget
  have := toNat_lt_of_read ha
  have := toNat_lt_of_read hb
  have := toNat_lt_of_read hc
  have := toNat_lt_of_read he
  cases hv
  omega

theorem get3BYTE_lt (hget : d.get3BYTE p = .ok v) : v < 16777216 := by
  obtain ⟨ret, -, hv⟩ := bind_eq_ok_iff.mp hget
  cases hv
  exact Nat.mod_lt ret (by decide)

end Ipdb

end Avbot.Qqwry
