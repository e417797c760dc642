import Mathlib.Logic.Basic
import Mathlib.Data.List.Basic

/-!
# Machines that scan a sequence

A scanner takes one element after the other and changes its state, until it stops with an answer or gives up. A stretch that it goes through without stopping is a run from one state to another.
-/

namespace Scanner

open List Option

variable {σ α ρ : Type*}

inductive Outcome (σ ρ : Type*) where
  | next (s : σ)
  | stop (answer : ρ)
  | fail

variable (step : σ → α → Outcome σ ρ)

def scan : σ → List α → Option (ρ × List α)
  | _, [] => none
  | s, a :: l =>
    match step s a with
    | .next s' => scan s' l
    | .stop answer => some (answer, l)
    | .fail => none

def runs : σ → List α → Option σ
  | s, [] => some s
  | s, a :: l =>
    match step s a with
    | .next s' => runs s' l
    | _ => none

def reached : σ → List α → σ
  | s, [] => s
  | s, a :: l =>
    match step s a with
    | .next s' => reached s' l
    | _ => s

variable {step} {s s' s'' : σ} {a : α} {l l' : List α}

theorem runs_cons (hstep : step s a = .next s') : runs step s (a :: l) = runs step s' l := by
  rw [runs, hstep]

theorem runs_append (hruns : runs step s l = some s') : runs step s (l ++ l') = runs step s' l' := by
  induction l generalizing s with
  | nil =>
    obtain rfl := some.inj hruns
    rfl
  | cons a l ih =>
    rw [runs] at hruns
    grind [runs]

variable {answer : ρ}

theorem length_lt_of_scan (hscan : scan step s l = some (answer, l')) : l'.length < l.length := by
  induction l generalizing s with
  | nil => simp [scan] at hscan
  | cons a l ih =>
    rw [scan] at hscan
    grind

theorem scan_append (hruns : runs step s l = some s') : scan step s (l ++ l') = scan step s' l' := by
  induction l generalizing s with
  | nil =>
    obtain rfl := some.inj hruns
    rfl
  | cons a l ih =>
    rw [runs] at hruns
    rw [cons_append, scan]
    grind

theorem reached_append (hruns : runs step s l = some s') : reached step s (l ++ l') = reached step s' l' := by
  induction l generalizing s with
  | nil =>
    obtain rfl := some.inj hruns
    rfl
  | cons a l ih =>
    grind [runs, reached]

theorem scan_append_of_some (hscan : scan step s l = some (answer, l')) (more : List α) :
    scan step s (l ++ more) = some (answer, l' ++ more) := by
  induction l generalizing s with
  | nil => simp [scan] at hscan
  | cons a l ih =>
    rw [scan] at hscan
    rw [cons_append, scan]
    split at hscan
    case h_1 => exact ih hscan
    case h_2 =>
      grind
    case h_3 => simp at hscan

inductive Outcome.Related (R : σ → σ → Prop) (Q : ρ → ρ → Prop) : Outcome σ ρ → Outcome σ ρ → Prop where
  | next {s t : σ} (h : R s t) : Related R Q (.next s) (.next t)
  | stop {a b : ρ} (h : Q a b) : Related R Q (.stop a) (.stop b)
  | fail : Related R Q .fail .fail

theorem scan_related {R : σ → σ → Prop} {Q : ρ → ρ → Prop} (hstep : ∀ s t a, R s t → (step s a).Related R Q (step t a))
    {t : σ} (hst : R s t) (hscan : scan step s l = some (answer, l')) :
    ∃ answer', scan step t l = some (answer', l') ∧ Q answer answer' := by
  induction l generalizing s t with
  | nil => simp [scan] at hscan
  | cons a l ih =>
    have hrel := hstep s t a hst
    rw [scan] at hscan
    rw [scan]
    split at hscan
    case h_1 s₁ hs =>
      rw [hs] at hrel
      cases ht : step t a with
      | next t₁ =>
        rw [ht] at hrel
        cases hrel with
        | next h => exact ih h hscan
      | stop b => rw [ht] at hrel; cases hrel
      | fail => rw [ht] at hrel; cases hrel
    case h_2 b hs =>
      obtain ⟨rfl, rfl⟩ := Prod.mk.inj (some.inj hscan)
      rw [hs] at hrel
      cases ht : step t a with
      | next t₁ => rw [ht] at hrel; cases hrel
      | stop b' =>
        rw [ht] at hrel
        cases hrel with
        | stop h => exact ⟨b', rfl, h⟩
      | fail => rw [ht] at hrel; cases hrel
    case h_3 => simp at hscan

theorem runs_of_forall {β : Type*} {f : β → σ} {next : β → α → β} (l : List α) (b : β)
    (hstep : ∀ a ∈ l, ∀ b, step (f b) a = .next (f (next b a))) : runs step (f b) l = some (f (l.foldl next b)) := by
  induction l generalizing b with
  | nil => rfl
  | cons a l ih =>
    grind [runs_cons]

theorem scan_stretch_iff {β : Type*} {f g : β → σ} {next : β → α → β} {good : α → Prop} {sep : α} (hsep : ¬ good sep)
    (hgood : ∀ a, good a → ∀ b, step (f b) a = .next (f (next b a))) (hend : ∀ b, step (f b) sep = .next (g b))
    (hbad : ∀ a, a ≠ sep → ¬ good a → ∀ b, step (f b) a = .fail) {r : ρ × List α} (b : β) :
    scan step (f b) l = some r ↔
      ∃ ds l', l = ds ++ sep :: l' ∧ (∀ a ∈ ds, good a) ∧ scan step (g (ds.foldl next b)) l' = some r := by
  induction l generalizing b with
  | nil => simp [scan]
  | cons a l ih =>
    rw [scan]
    by_cases hsame : a = sep
    · subst hsame
      rw [hend b]
      constructor
      · intro hscan
        exact ⟨[], l, rfl, by simp, hscan⟩
      · rintro ⟨ds, l', heq, hds, hscan⟩
        cases ds with
        | nil =>
          obtain ⟨-, rfl⟩ := cons.inj heq
          exact hscan
        | cons d ds =>
          obtain ⟨rfl, -⟩ := cons.inj heq
          exact absurd (hds _ mem_cons_self) hsep
    · by_cases ha : good a
      · rw [hgood a ha b]
        rw [ih]
        constructor
        · rintro ⟨ds, l', rfl, hds, hscan⟩
          exact ⟨a :: ds, l', rfl, forall_mem_cons.mpr ⟨ha, hds⟩, hscan⟩
        · rintro ⟨ds, l', heq, hds, hscan⟩
          cases ds with
          | nil => exact absurd (cons.inj heq).1 hsame
          | cons d ds =>
            obtain ⟨rfl, rfl⟩ := cons.inj heq
            exact ⟨ds, l', rfl, (forall_mem_cons.mp hds).2, hscan⟩
      · rw [hbad a hsame ha b]
        refine iff_of_false (by simp) ?_
        rintro ⟨ds, l', heq, hds, -⟩
        cases ds with
        | nil => exact hsame (cons.inj heq).1
        | cons d ds =>
          obtain ⟨rfl, -⟩ := cons.inj heq
          exact ha (hds _ mem_cons_self)

theorem scan_one_iff {good : α → Prop} {next : α → σ} (hgood : ∀ a, good a → step s a = .next (next a))
    (hbad : ∀ a, ¬ good a → step s a = .fail) {r : ρ × List α} :
    scan step s l = some r ↔ ∃ a l', l = a :: l' ∧ good a ∧ scan step (next a) l' = some r := by
  cases l with
  | nil => simp [scan]
  | cons a l =>
    rw [scan]
    grind

def Outcome.map {σ' ρ' : Type*} (f : σ → σ') (g : ρ → ρ') : Outcome σ ρ → Outcome σ' ρ'
  | .next s => .next (f s)
  | .stop answer => .stop (g answer)
  | .fail => .fail

theorem scan_map {σ' ρ' : Type*} {step' : σ' → α → Outcome σ' ρ'} {f : σ → σ'} {g : ρ → ρ'}
    (hstep : ∀ s a, step' (f s) a = (step s a).map f g) (s : σ) (l : List α) :
    scan step' (f s) l = (scan step s l).map fun r => (g r.1, r.2) := by
  induction l generalizing s with
  | nil => rfl
  | cons a l ih =>
    rw [scan, scan, hstep]
    cases step s a with
    | next s' => exact ih s'
    | stop answer => rfl
    | fail => rfl

end Scanner
