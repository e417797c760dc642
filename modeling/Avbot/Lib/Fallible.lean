import Mathlib.Logic.Basic

/-!
# Computations that can fail

Taking apart what a sequence of fallible steps returns, and comparing two computations of which the first may stop earlier with certain errors.
-/

namespace Fallible

universe u v

variable {ε : Type u} {α β : Type v}

@[simp]
theorem ok_bind (a : α) (f : α → Except ε β) : (Except.ok a >>= f) = f a := rfl

@[simp]
theorem error_bind (e : ε) (f : α → Except ε β) : (Except.error e >>= f) = .error e := rfl

variable {f : α → Except ε β} {e : ε}

theorem bind_eq_ok_iff {x : Except ε α} {b : β} : x >>= f = .ok b ↔ ∃ a, x = .ok a ∧ f a = .ok b := by
  cases x with
  | error e => simp
  | ok a => simp

theorem bind_eq_error_iff {x : Except ε α} : x >>= f = .error e ↔ x = .error e ∨ ∃ a, x = .ok a ∧ f a = .error e := by
  cases x with
  | error e' => simp
  | ok a => simp

theorem ok_ne_error (a : α) : (Except.ok a : Except ε α) ≠ .error e := by
  rintro ⟨⟩

theorem bind_ne_error {x : Except ε α} (hx : x ≠ .error e) (hf : ∀ a, x = .ok a → f a ≠ .error e) :
    x >>= f ≠ .error e := by
  intro hbind
  rcases bind_eq_error_iff.mp hbind with herror | ⟨a, ha, herror⟩
  · exact hx herror
  · exact hf a ha herror

theorem bind_eq_error_iff_left {x : Except ε α} (hf : ∀ a, f a ≠ .error e) : x >>= f = .error e ↔ x = .error e := by
  grind [bind_eq_error_iff]

def UpTo (E : ε → Prop) (x y : Except ε α) : Prop := (∃ e, E e ∧ x = .error e) ∨ x = y

variable {E : ε → Prop} {x y : Except ε α}

theorem UpTo.refl (x : Except ε α) : UpTo E x x := .inr rfl

theorem UpTo.error (he : E e) : UpTo E (.error e) x := .inl ⟨e, he, rfl⟩

theorem UpTo.bind (hxy : UpTo E x y) {g : α → Except ε β} (hfg : ∀ a, x = .ok a → UpTo E (f a) (g a)) :
    UpTo E (x >>= f) (y >>= g) := by
  rcases hxy with ⟨e, he, rfl⟩ | rfl
  · exact .error he
  · cases x with
    | error e' => exact .inr rfl
    | ok a => exact hfg a rfl

theorem UpTo.ite {p : Prop} [Decidable p] {x' y' : Except ε α} (hthen : p → UpTo E x y) (helse : ¬ p → UpTo E x' y') :
    UpTo E (if p then x else x') (if p then y else y') := by
  grind

section Fold

variable {step : β → α → Except ε β} {pureStep : β → α → β} {l : List α}

theorem foldlM_eq_ok (hstep : ∀ a ∈ l, ∀ b, step b a = .ok (pureStep b a)) (b : β) :
    l.foldlM step b = .ok (l.foldl pureStep b) := by
  induction l generalizing b with
  | nil => rfl
  | cons a l ih =>
    rw [List.foldlM_cons, hstep a (by simp) b, ok_bind, ih fun a' ha' => hstep a' (by simp [ha']), List.foldl_cons]

theorem foldlM_eq_error (hstep : ∀ a ∈ l, (∀ b, step b a = .ok (pureStep b a)) ∨ ∀ b, step b a = .error e)
    (herror : ∃ a ∈ l, ∀ b, step b a = .error e) (b : β) : l.foldlM step b = .error e := by
  induction l generalizing b with
  | nil => simp at herror
  | cons a l ih =>
    rw [List.foldlM_cons]
    rcases hstep a (by simp) with hok | hfails
    · -- then it is a later step that fails
      obtain ⟨a', hmem, ha'⟩ := herror
      rcases List.mem_cons.mp hmem with rfl | hmem
      · exact absurd ((hok b).symm.trans (ha' b)) (ok_ne_error _)
      · rw [hok b, ok_bind]
        exact ih (fun c hc => hstep c (by simp [hc])) ⟨a', hmem, ha'⟩ _
    · rw [hfails b, error_bind]

end Fold

end Fallible
