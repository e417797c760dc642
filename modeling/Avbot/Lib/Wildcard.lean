import Mathlib.Data.List.Basic

/-!
# Wildcard patterns

A pattern is a list of tokens: a star for any sequence, `any` for one element, and the elements themselves. Between two stars the first place where a segment fits is as good as any later one. A last segment must fit at the end.
-/

namespace Wildcard

open List

variable {α : Type*}

inductive Token (α : Type*) where
  | star
  | any
  | elem (a : α)
  deriving DecidableEq

def Matches : List (Token α) → List α → Prop
  | [], s => s = []
  | .star :: p, s => ∃ front back, s = front ++ back ∧ Matches p back
  | .any :: p, s => ∃ a back, s = a :: back ∧ Matches p back
  | .elem a :: p, s => ∃ back, s = a :: back ∧ Matches p back

def Token.Accepts : Token α → α → Prop
  | .star, _ => False
  | .any, _ => True
  | .elem a, b => a = b

def Fits : List (Token α) → List α → Prop
  | [], _ => True
  | _ :: _, [] => False
  | t :: seg, a :: s => t.Accepts a ∧ Fits seg s

variable {p q seg : List (Token α)} {s : List α}

theorem Fits.length_le (hfits : Fits seg s) : seg.length ≤ s.length := by
  induction seg generalizing s with
  | nil => exact Nat.zero_le _
  | cons t seg ih =>
    cases s with
    | nil => exact hfits.elim
    | cons a s => exact Nat.succ_le_succ (ih hfits.2)

theorem matches_star_iff : Matches (.star :: p) s ↔ ∃ m, Matches p (s.drop m) := by
  constructor
  · rintro ⟨front, back, rfl, hback⟩
    exact ⟨front.length, by rwa [drop_left]⟩
  · rintro ⟨m, hdrop⟩
    exact ⟨s.take m, s.drop m, (take_append_drop m s).symm, hdrop⟩

theorem matches_star_singleton (s : List α) : Matches [.star] s := ⟨s, [], (append_nil s).symm, rfl⟩

theorem matches_star_of_drop {m : Nat} (hdrop : Matches (.star :: p) (s.drop m)) : Matches (.star :: p) s := by
  obtain ⟨n, hn⟩ := matches_star_iff.mp hdrop
  rw [drop_drop] at hn
  exact matches_star_iff.mpr ⟨m + n, hn⟩

theorem matches_star_star : Matches (.star :: .star :: p) s ↔ Matches (.star :: p) s := by
  constructor
  · intro hstars
    obtain ⟨m, hm⟩ := matches_star_iff.mp hstars
    exact matches_star_of_drop hm
  · intro hstar
    exact matches_star_iff.mpr ⟨0, hstar⟩

section

variable (hseg : .star ∉ seg)

include hseg

theorem matches_append_iff : Matches (seg ++ p) s ↔ Fits seg s ∧ Matches p (s.drop seg.length) := by
  induction seg generalizing s with
  | nil => simp [Fits]
  | cons t seg ih =>
    have hrest : .star ∉ seg := fun hmem => hseg (mem_cons_of_mem t hmem)
    cases t with
    | star => exact absurd mem_cons_self hseg
    | any =>
      cases s with
      | nil => simp [Matches, Fits]
      | cons a s => simpa [Matches, Fits, Token.Accepts] using ih hrest
    | elem b =>
      cases s with
      | nil => simp [Matches, Fits]
      | cons a s => simp [Matches, Fits, Token.Accepts, ih hrest, and_assoc, eq_comm]

theorem matches_segment_iff : Matches seg s ↔ Fits seg s ∧ s.length = seg.length := by
  have happend := matches_append_iff (p := []) (s := s) hseg
  rw [append_nil] at happend
  rw [happend]
  refine and_congr_right fun hfits => ?_
  have hle := hfits.length_le
  rw [Matches, drop_eq_nil_iff]
  omega

theorem not_matches_of_forall (hnone : ∀ m, ¬ Fits seg (s.drop m)) : ¬ Matches (.star :: (seg ++ p)) s := by
  intro hmatches
  obtain ⟨m, hm⟩ := matches_star_iff.mp hmatches
  exact hnone m ((matches_append_iff hseg).mp hm).1

theorem matches_first_iff {i : Nat} (hfits : Fits seg (s.drop i)) (hfirst : ∀ m < i, ¬ Fits seg (s.drop m)) :
    Matches (.star :: (seg ++ .star :: p)) s ↔ Matches (.star :: p) (s.drop (i + seg.length)) := by
  constructor
  · intro hmatches
    obtain ⟨m, hm⟩ := matches_star_iff.mp hmatches
    obtain ⟨hfits', hrest⟩ := (matches_append_iff hseg).mp hm
    have hle : i ≤ m := Nat.le_of_not_lt fun hlt => hfirst m hlt hfits'
    have hshift : s.drop (m + seg.length) = (s.drop (i + seg.length)).drop (m - i) := by
      rw [drop_drop]
      congr 1
      omega
    rw [drop_drop, hshift] at hrest
    exact matches_star_of_drop hrest
  · intro hrest
    refine matches_star_iff.mpr ⟨i, (matches_append_iff hseg).mpr ⟨hfits, ?_⟩⟩
    rwa [drop_drop]

theorem matches_last_iff (hle : seg.length ≤ s.length) :
    Matches (.star :: seg) s ↔ Fits seg (s.drop (s.length - seg.length)) := by
  rw [matches_star_iff]
  constructor
  · rintro ⟨m, hm⟩
    obtain ⟨hfits, hlength⟩ := (matches_segment_iff hseg).mp hm
    rw [length_drop] at hlength
    by_cases hm : m ≤ s.length
    · rwa [show s.length - seg.length = m by omega]
    · have hnil : seg = [] := length_eq_zero_iff.mp (by omega)
      rw [hnil]
      trivial
  · intro hfits
    refine ⟨s.length - seg.length, (matches_segment_iff hseg).mpr ⟨hfits, ?_⟩⟩
    rw [length_drop]
    omega

end

theorem matches_star_iff_le : Matches (.star :: p) s ↔ ∃ m ∈ List.range (s.length + 1), Matches p (s.drop m) := by
  rw [matches_star_iff]
  constructor
  · rintro ⟨m, hm⟩
    by_cases hle : m ≤ s.length
    · exact ⟨m, mem_range.mpr (by omega), hm⟩
    · refine ⟨s.length, mem_range.mpr (by omega), ?_⟩
      rwa [drop_eq_nil_of_le (by omega), ← drop_eq_nil_of_le (Nat.le_refl s.length)] at hm
  · rintro ⟨m, -, hm⟩
    exact ⟨m, hm⟩

instance decidableMatches [DecidableEq α] : ∀ (p : List (Token α)) (s : List α), Decidable (Matches p s)
  | [], s => decEq s []
  | .star :: p, s =>
    have : DecidablePred fun m => Matches p (s.drop m) := fun m => decidableMatches p (s.drop m)
    decidable_of_iff _ matches_star_iff_le.symm
  | .any :: _, [] => .isFalse fun ⟨_, _, h, _⟩ => by cases h
  | .any :: p, a :: s =>
    have := decidableMatches p s
    decidable_of_iff (Matches p s) (by simp [Matches])
  | .elem _ :: _, [] => .isFalse fun ⟨_, h, _⟩ => by cases h
  | .elem b :: p, a :: s =>
    have := decidableMatches p s
    decidable_of_iff (a = b ∧ Matches p s) (by simp [Matches])

end Wildcard
