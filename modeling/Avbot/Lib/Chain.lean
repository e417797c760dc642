import Avbot.Lib.Fallible
import Mathlib.Data.Fintype.Pigeonhole
import Mathlib.Data.Set.Finite.Basic

/-!
# Chains of references

From each element there is at most one reference to a next one. A chain of references comes to a last element, or it goes on for ever; where only finitely many elements are ever referred to, only by coming back to where it was.
-/

namespace Chain

open Option Nat

variable {α β : Type*} (next : α → Option α)

def after : Nat → α → Option α
  | 0, a => some a
  | n + 1, a => (next a).bind (after n)

def Last (a b : α) : Prop := ∃ n, after next n a = some b ∧ next b = none

def ComesBack (a : α) : Prop := ∃ m n b, m < n ∧ after next m a = some b ∧ after next n a = some b

variable {next} {a b c : α}

theorem after_add (m n : Nat) (a : α) : after next (m + n) a = (after next m a).bind (after next n) := by
  induction m generalizing a with
  | zero => rw [zero_add]; rfl
  | succ m ih =>
    rw [succ_add, after, after]
    grind

theorem after_succ_of_last {n : Nat} (hb : after next n a = some b) (hlast : next b = none) (m : Nat) :
    after next (n + (m + 1)) a = none := by
  rw [after_add, hb, bind_some, after, hlast]
  rfl

theorem Last.unique (hb : Last next a b) (hc : Last next a c) : b = c := by
  obtain ⟨m, hm, hmlast⟩ := hb
  obtain ⟨n, hn, hnlast⟩ := hc
  rcases lt_trichotomy m n with hlt | rfl | hgt
  · obtain ⟨k, rfl⟩ := Nat.exists_eq_add_of_lt hlt
    grind [after_succ_of_last]
  · exact some.inj (hm.symm.trans hn)
  · obtain ⟨k, rfl⟩ := Nat.exists_eq_add_of_lt hgt
    grind [after_succ_of_last]

theorem after_isSome (hlast : ∀ b, ¬ Last next a b) (n : Nat) : ∃ b, after next n a = some b := by
  induction n with
  | zero => exact ⟨a, rfl⟩
  | succ n ih =>
    obtain ⟨b, hb⟩ := ih
    cases hnext : next b with
    | none => exact absurd ⟨n, hb, hnext⟩ (hlast b)
    | some c =>
      grind [after_add, after]

theorem not_last_of_comesBack (hback : ComesBack next a) : ¬ Last next a b := by
  obtain ⟨m, n, c, hmn, hm, hn⟩ := hback
  rintro ⟨r, hr, hlast⟩
  have hle : m ≤ r := by
    by_contra hlt
    obtain ⟨k, rfl⟩ := Nat.exists_eq_add_of_lt (Nat.lt_of_not_le hlt)
    grind [after_succ_of_last]
  obtain ⟨i, rfl⟩ := Nat.exists_eq_add_of_le hle
  have hagain : after next (n + i) a = some b := by
    rw [after_add, hn, ← hr, after_add, hm]
  obtain ⟨k, hk⟩ := Nat.exists_eq_add_of_lt (Nat.add_lt_add_right hmn i)
  rw [hk, add_assoc, after_succ_of_last hr hlast] at hagain
  cases hagain

theorem exists_last_iff {s : Set α} (hs : s.Finite) (hnext : ∀ a b, next a = some b → b ∈ s) :
    (∃ b, Last next a b) ↔ ¬ ComesBack next a := by
  constructor
  · rintro ⟨b, hb⟩ hback
    exact not_last_of_comesBack hback hb
  · intro hback
    by_contra hlast
    push Not at hlast
    choose f hf using after_isSome hlast
    have hmem : ∀ n, f (n + 1) ∈ s := by
      intro n
      have hstep := hf (n + 1)
      rw [after_add, hf n, bind_some, after] at hstep
      cases hnext' : next (f n) with
      | none => rw [hnext'] at hstep; cases hstep
      | some c =>
        rw [hnext'] at hstep
        obtain rfl := some.inj hstep
        exact hnext _ _ hnext'
    have := hs.to_subtype
    obtain ⟨m, n, hne, heq⟩ := Finite.exists_ne_map_eq_of_infinite fun n => (⟨f (n + 1), hmem n⟩ : s)
    have heq : f (m + 1) = f (n + 1) := congrArg Subtype.val heq
    rcases lt_or_gt_of_ne hne with hlt | hgt
    · exact hback ⟨m + 1, n + 1, f (m + 1), by omega, hf _, heq ▸ hf _⟩
    · exact hback ⟨n + 1, m + 1, f (n + 1), by omega, hf _, heq ▸ hf _⟩

def Finishes (unfinished : β) (f : Nat → β) : Prop := ∃ k, ∀ n ≥ k, f n ≠ unfinished

theorem finishes_congr {unfinished : β} {f : Nat → β} {γ : Type*} {unfinished' : γ} {g : Nat → γ} {k : Nat}
    (hfg : ∀ n ≥ k, f n = unfinished ↔ g n = unfinished') : Finishes unfinished f ↔ Finishes unfinished' g := by
  constructor
  · rintro ⟨r, hr⟩
    exact ⟨max k r, fun n hn => mt (hfg n (le_of_max_le_left hn)).mpr (hr n (le_of_max_le_right hn))⟩
  · rintro ⟨r, hr⟩
    exact ⟨max k r, fun n hn => mt (hfg n (le_of_max_le_left hn)).mp (hr n (le_of_max_le_right hn))⟩

/-- `f` goes along the references, with one call less for each. -/
structure Follows (next : α → Option α) (unfinished : β) (f : Nat → α → β) : Prop where
  zero : ∀ a, f 0 a = unfinished
  step : ∀ n a b, next a = some b → f (n + 1) a = f n b

namespace Follows

variable {unfinished : β} {f : Nat → α → β}

section

variable (hf : Follows next unfinished f)

include hf

theorem after_eq {k : Nat} (hb : after next k a = some b) (n : Nat) : f (n + k) a = f n b := by
  induction k generalizing a with
  | zero =>
    obtain rfl := some.inj hb
    rfl
  | succ k ih =>
    rw [after] at hb
    cases hnext : next a with
    | none => rw [hnext] at hb; cases hb
    | some c =>
      rw [hnext] at hb
      rw [← add_assoc, hf.step _ _ _ hnext]
      exact ih hb

theorem eq_unfinished (hlast : ∀ b, ¬ Last next a b) (n : Nat) : f n a = unfinished := by
  obtain ⟨b, hb⟩ := after_isSome hlast n
  have hzero := hf.after_eq hb 0
  rwa [zero_add, hf.zero] at hzero

theorem last_eq (hb : Last next a b) : ∃ k, ∀ n, f (n + k) a = f n b := by
  obtain ⟨k, hk, -⟩ := hb
  exact ⟨k, hf.after_eq hk⟩

theorem finishes_iff_of_last (hb : Last next a b) : Finishes unfinished (f · a) ↔ Finishes unfinished (f · b) := by
  obtain ⟨k, hk⟩ := hf.last_eq hb
  constructor
  · rintro ⟨r, hr⟩
    refine ⟨r, fun n hn => ?_⟩
    show f n b ≠ unfinished
    rw [← hk n]
    exact hr (n + k) (by omega)
  · rintro ⟨r, hr⟩
    refine ⟨r + k, fun n hn => ?_⟩
    obtain ⟨i, rfl⟩ := Nat.exists_eq_add_of_le' hn
    show f (i + (r + k)) a ≠ unfinished
    rw [← add_assoc, hk]
    exact hr (i + r) (by omega)

theorem finishes_iff : Finishes unfinished (f · a) ↔ ∃ b, Last next a b ∧ Finishes unfinished (f · b) := by
  by_cases hlast : ∃ b, Last next a b
  · obtain ⟨b, hb⟩ := hlast
    rw [hf.finishes_iff_of_last hb]
    constructor
    · intro hfinish
      exact ⟨b, hb, hfinish⟩
    · rintro ⟨c, hc, hfinish⟩
      rwa [hb.unique hc]
  · refine iff_of_false ?_ fun ⟨b, hb, _⟩ => hlast ⟨b, hb⟩
    rintro ⟨r, hr⟩
    exact hr r (le_refl r) (hf.eq_unfinished (fun b hb => hlast ⟨b, hb⟩) r)

end

end Follows

end Chain
