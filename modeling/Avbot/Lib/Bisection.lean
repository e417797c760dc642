import Mathlib.Algebra.Order.Ring.Nat
import Mathlib.Order.Basic

/-!
# Bisection between two exclusive bounds

A search that compares at `i` and goes on half of the way towards one of its bounds. It finds what lies strictly between the bounds and never looks at the upper bound itself.
-/

namespace Bisection

/-- `cmp i` tells where the target lies, seen from `i`. -/
def search (cmp : Nat → Ordering) : Nat → Nat → Nat → Nat → Option Nat
  | 0, _, _, _ => none
  | rounds + 1, i, l, r =>
    match cmp i with
    | .eq => some i
    | .gt => if i + (r - i) / 2 = i then none else search cmp rounds (i + (r - i) / 2) i r
    | .lt => search cmp rounds (i - (i - l) / 2) l i

variable {cmp : Nat → Ordering} {k i l r : Nat}

def Middle (i l r : Nat) : Prop := l + r ≤ 2 * i + 1 ∧ 2 * i ≤ l + r + 1

theorem search_of_between (hcmp : ∀ j, l < j → j < r → cmp j = compare k j) (hl : l < k) (hr : k < r) (hi : Middle i l r)
    {rounds : Nat} (hgap : r - l ≤ 2 ^ rounds) : search cmp rounds i l r = some k := by
  obtain ⟨hlow, hhigh⟩ := hi
  induction rounds generalizing i l r with
  | zero =>
    rw [pow_zero] at hgap
    omega
  | succ rounds ih =>
    rw [pow_succ] at hgap
    rw [search, hcmp i (by omega) (by omega)]
    grind

theorem search_eq_none {m : Nat} (hcmp : ∀ j < m, cmp j ≠ .eq) (hi : i < m) (hr : r ≤ m) (rounds : Nat) :
    search cmp rounds i l r = none := by
  induction rounds generalizing i l r with
  | zero => rfl
  | succ rounds ih =>
    rw [search]
    grind

end Bisection
