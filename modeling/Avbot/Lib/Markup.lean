import Mathlib.Logic.Basic
import Mathlib.Data.List.Basic

/-!
# Text with the origin of its characters

A program writes markup by filling texts it was given into format strings of its own. Each character of the result remembers which of the two it comes from, so that one can say that the text given adds no markup.
-/

namespace Markup

open List

inductive Origin where
  | own
  | given
  deriving DecidableEq, Repr

abbrev Text := List (Origin × Char)

def erase (t : Text) : List Char := t.map Prod.snd

def own (s : List Char) : Text := s.map fun c => (.own, c)

def given (s : List Char) : Text := s.map fun c => (.given, c)

def format : List Char → List (List Char) → Text
  | '%' :: 's' :: fmt, arg :: args => given arg ++ format fmt args
  | c :: fmt, args => (.own, c) :: format fmt args
  | [], _ => []

example : erase (format "<a href=\"%s\">%s</a>".toList ["x".toList, "y".toList]) = "<a href=\"x\">y</a>".toList := by decide

def OwnTags (t : Text) : Prop := ∀ x ∈ t, x.2 = '<' ∨ x.2 = '>' → x.1 = .own

def inside : Bool → Text → Bool
  | q, [] => q
  | q, x :: t => inside (if x = (.own, '"') then !q else q) t

def OwnQuotes : Bool → Text → Prop
  | _, [] => True
  | q, x :: t => (x = (.given, '"') → q = false) ∧ OwnQuotes (if x = (.own, '"') then !q else q) t

def NoMarkup (t : Text) : Prop := OwnTags t ∧ OwnQuotes false t

def Plain (s : List Char) : Prop := '<' ∉ s ∧ '>' ∉ s ∧ '"' ∉ s

instance (s : List Char) : Decidable (Plain s) := inferInstanceAs (Decidable (_ ∧ _ ∧ _))

variable {q : Bool} {s : List Char} {t t' : Text}

@[simp] theorem ownTags_nil : OwnTags [] := by
  simp [OwnTags]

@[simp] theorem ownTags_append : OwnTags (t ++ t') ↔ OwnTags t ∧ OwnTags t' :=
  forall_mem_append

@[simp] theorem ownTags_own : OwnTags (own s) := by
  simp [OwnTags, own]

@[simp] theorem ownTags_given : OwnTags (given s) ↔ '<' ∉ s ∧ '>' ∉ s := by
  constructor
  · intro h
    constructor
    · intro hmem
      have hown := h (.given, '<') (mem_map_of_mem hmem) (.inl rfl)
      simp at hown
    · intro hmem
      have hown := h (.given, '>') (mem_map_of_mem hmem) (.inr rfl)
      simp at hown
  · rintro ⟨hlt, hgt⟩ x hx hc
    obtain ⟨c, hmem, rfl⟩ := mem_map.mp hx
    rcases hc with rfl | rfl
    · exact absurd hmem hlt
    · exact absurd hmem hgt

@[simp] theorem inside_append (q : Bool) (t t' : Text) : inside q (t ++ t') = inside (inside q t) t' := by
  induction t generalizing q with
  | nil => rfl
  | cons x t ih => exact ih _

@[simp] theorem inside_given (q : Bool) (s : List Char) : inside q (given s) = q := by
  induction s with
  | nil => rfl
  | cons c s ih => exact ih

@[simp] theorem ownQuotes_append : OwnQuotes q (t ++ t') ↔ OwnQuotes q t ∧ OwnQuotes (inside q t) t' := by
  induction t generalizing q with
  | nil => simp [OwnQuotes, inside]
  | cons x t ih => rw [cons_append, OwnQuotes, OwnQuotes, ih, inside, and_assoc]

@[simp] theorem ownQuotes_own (q : Bool) (s : List Char) : OwnQuotes q (own s) := by
  induction s generalizing q with
  | nil => trivial
  | cons c s ih => exact ⟨by simp, ih _⟩

@[simp] theorem ownQuotes_given : OwnQuotes q (given s) ↔ q = false ∨ '"' ∉ s := by
  induction s with
  | nil => simp [given, OwnQuotes]
  | cons c s ih =>
    have hcons : OwnQuotes q (given (c :: s)) ↔ (c = '"' → q = false) ∧ OwnQuotes q (given s) := by
      simp [given, OwnQuotes]
    grind

theorem noMarkup_given : NoMarkup (given s) ↔ '<' ∉ s ∧ '>' ∉ s := by
  simp [NoMarkup]

theorem noMarkup_append (hclosed : inside false t = false) : NoMarkup (t ++ t') ↔ NoMarkup t ∧ NoMarkup t' := by
  simp only [NoMarkup, ownTags_append, ownQuotes_append, hclosed]
  exact and_and_and_comm

theorem noMarkup_own (s : List Char) : NoMarkup (own s) := ⟨ownTags_own, ownQuotes_own _ _⟩

theorem noMarkup_attribute (pre post : List Char) (hopen : inside false (own pre) = true)
    (hclose : inside true (own post) = false) :
    inside false (own pre ++ given s ++ own post) = false ∧ (NoMarkup (own pre ++ given s ++ own post) ↔ Plain s) := by
  simp [NoMarkup, Plain, hopen, hclose, and_assoc]

theorem noMarkup_attribute₂ (s s' pre mid post : List Char) (hopen : inside false (own pre) = true)
    (hmid : inside true (own mid) = true) (hclose : inside true (own post) = false) :
    inside false (own pre ++ given s ++ own mid ++ given s' ++ own post) = false ∧
      (NoMarkup (own pre ++ given s ++ own mid ++ given s' ++ own post) ↔ Plain s ∧ Plain s') := by
  have hclosed : inside false (own pre ++ given s ++ own mid ++ given s' ++ own post) = false := by
    simp [hopen, hmid, hclose]
  refine ⟨hclosed, ?_⟩
  simp only [NoMarkup, Plain, ownTags_append, ownTags_own, ownTags_given, ownQuotes_append, ownQuotes_own, ownQuotes_given,
    inside_append, inside_given, hopen, hmid, true_and, and_true, Bool.true_eq_false, false_or]
  grind

end Markup
