import Avbot.Qqwry.Ipdb

/-!
# Finding the record of an address

The search treats the number of the last entry as a bound behind the entries: the last entry is not looked at, unless it is the only one.
-/

namespace Avbot.Qqwry

open Bisection (search)

structure CoveringIndex (d : Ipdb) (n : Nat) extends Index d n where
  le : n ≤ 2 ^ 24
  start_zero : start 0 = 0
  start_le_last : ∀ k < n, start k ≤ last k
  start_succ : ∀ k, k + 1 < n → start (k + 1) = last k + 1
  last_pred : last (n - 1) = 2 ^ 32 - 1

def Index.side {d : Ipdb} {n : Nat} (x : Index d n) (ip i : Nat) : Ordering := ipInRegon ip (x.start i) (x.last i)

namespace Index

variable {d : Ipdb} {n : Nat} (x : Index d n)

theorem findLoop_eq (ip : Nat) {i l r : Nat} (hi : i < n) (hr : r ≤ n) (rounds : Nat) :
    d.findLoop x.first ip rounds i l r = .ok ((search (x.side ip) rounds i l r).map x.offset) := by
  induction rounds generalizing i l r with
  | zero => rfl
  | succ rounds ih =>
    rw [Ipdb.findLoop, search, x.recordIndex_eq i hi]
    change (d.getDWORD (x.offset i) >>= _) = _
    rw [x.getDWORD_eq i hi, Fallible.ok_bind, show ipInRegon ip (x.start i) (x.last i) = x.side ip i from rfl]
    cases x.side ip i with
    | eq => rfl
    | gt =>
      dsimp only
      split
      · rfl
      · exact ih (by omega) hr
    | lt => exact ih (by omega) hi.le

theorem findRecord_eq (ip : Nat) : d.findRecord ip = .ok ((search (x.side ip) 50 0 0 (n - 1)).map x.offset) := by
  have hpos := x.pos
  have hlt := Ipdb.getDWORD_lt x.lastRecord_eq
  have hr : (x.first + 7 * (n - 1) + 2 ^ 64 - x.first) % 2 ^ 64 / 7 = n - 1 := by omega
  rw [Ipdb.findRecord, x.firstRecord_eq, x.lastRecord_eq]
  change d.findLoop x.first ip 50 0 0 ((x.first + 7 * (n - 1) + 2 ^ 64 - x.first) % 2 ^ 64 / 7) = _
  rw [hr]
  exact x.findLoop_eq ip hpos (by omega) 50

end Index

namespace CoveringIndex

variable {d : Ipdb} {n : Nat} (x : CoveringIndex d n)

theorem last_lt_start {i k : Nat} (hik : i < k) (hk : k < n) : x.last i < x.start k := by
  induction k with
  | zero => omega
  | succ k ih =>
    rw [x.start_succ k hk]
    rcases Nat.lt_succ_iff_lt_or_eq.mp hik with hlt | rfl
    · have hstep := ih hlt (by omega)
      have hregion := x.start_le_last k (by omega)
      omega
    · omega

theorem side_eq_compare {ip k : Nat} (hk : k < n) (hstart : x.start k ≤ ip) (hlast : ip ≤ x.last k) {i : Nat} (hi : i < n) :
    x.side ip i = compare k i := by
  rcases lt_trichotomy k i with hlt | rfl | hgt
  · have hafter := x.last_lt_start hlt hi
    rw [compare_lt_iff_lt.mpr hlt, Index.side, ipInRegon, if_pos (by omega)]
  · rw [compare_eq_iff_eq.mpr rfl, Index.side, ipInRegon, if_neg (by omega), if_neg (by omega)]
  · have hbefore := x.last_lt_start hgt hk
    have hregion := x.start_le_last i hi
    rw [compare_gt_iff_gt.mpr hgt, Index.side, ipInRegon, if_neg (by omega), if_pos (by omega)]

/-- The record of an address is found except where it belongs to the last of several entries. -/
theorem findRecord_iff {ip k : Nat} (hk : k < n) (hstart : x.start k ≤ ip) (hlast : ip ≤ x.last k) :
    d.findRecord ip = .ok (some (x.offset k)) ↔ k + 1 < n ∨ n = 1 := by
  have hle := x.le
  have hcmp {i : Nat} (hi : i < n) := x.side_eq_compare hk hstart hlast hi
  rw [x.findRecord_eq ip]
  by_cases hcond : k + 1 < n ∨ n = 1
  · refine iff_of_true ?_ hcond
    have hsearch : search (x.side ip) 50 0 0 (n - 1) = some k := by
      rw [search, hcmp x.pos]
      rcases Nat.eq_zero_or_pos k with rfl | hpos
      · rw [compare_eq_iff_eq.mpr rfl]
      · rw [compare_gt_iff_gt.mpr hpos]
        rw [if_neg (by omega)]
        refine Bisection.search_of_between (fun j _ hj => hcmp (by omega)) hpos (by omega) ?_ ?_
        · exact ⟨by omega, by omega⟩
        · omega
    rw [hsearch]
    rfl
  · refine iff_of_false ?_ hcond
    rw [Bisection.search_eq_none (m := n - 1) (fun j hj heq => ?_) (by omega) (le_refl _)]
    · simp
    · rw [hcmp (by omega), compare_eq_iff_eq] at heq
      omega

end CoveringIndex

def fourRegions : Ipdb where
  file :=
    [40, 0, 0, 0, 61, 0, 0, 0,
      255, 255, 255, 63, 65, 0, 66, 0,
      255, 255, 255, 127, 67, 0, 68, 0,
      255, 255, 255, 191, 69, 0, 70, 0,
      255, 255, 255, 255, 71, 0, 72, 0,
      0, 0, 0, 0, 8, 0, 0,
      0, 0, 0, 64, 16, 0, 0,
      0, 0, 0, 128, 24, 0, 0,
      0, 0, 0, 192, 32, 0, 0].map Char.ofNat
  isByte := by decide
  size_lt := by decide

def fourRegionsIndex : CoveringIndex fourRegions 4 where
  first := 40
  start k := 1073741824 * k
  offset k := 8 + 8 * k
  last k := 1073741824 * k + 1073741823
  pos := by decide
  firstRecord_eq := by decide
  lastRecord_eq := by decide
  recordIndex_eq := by decide
  getDWORD_eq := by decide
  le := by decide
  start_zero := rfl
  start_le_last k _ := Nat.le_add_right _ _
  start_succ k _ := Nat.mul_succ 1073741824 k
  last_pred := by decide

/-- 128.0.0.0 is found in the third round. -/
theorem findRecord_third_region : fourRegions.findRecord 2147483648 = .ok (some 24) :=
  (fourRegionsIndex.findRecord_iff (by decide : 2 < 4) (by decide) (by decide)).mpr (by decide)

theorem findRecord_last_region :
    fourRegionsIndex.start 3 ≤ 3221225472 ∧ 3221225472 ≤ fourRegionsIndex.last 3 ∧
      fourRegions.findRecord 3221225472 = .ok none := by
  decide

end Avbot.Qqwry
