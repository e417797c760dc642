import Mathlib.Data.List.Basic
import Mathlib.Data.List.TakeWhile

/-!
# Words between separators

The maximal runs of a list without separators. Words can be computed piece by piece wherever a list is cut at a separator.
-/

namespace Words

open List

variable {α : Type*} (sep : α → Bool)

def words (l : List α) : List (List α) := (l.splitOnP sep).filter fun w => !w.isEmpty

variable {sep}

@[simp] theorem words_nil : words sep [] = [] := by
  simp [words]

variable {c : α} {w l : List α}

theorem words_append_cons (hc : sep c = true) (l m : List α) :
    words sep (l ++ c :: m) = words sep l ++ words sep m := by
  rw [words, splitOnP_append_cons l m hc, filter_append]
  rfl

theorem words_cons (hc : sep c = true) (l : List α) : words sep (c :: l) = words sep l := by
  have h := words_append_cons hc [] l
  rwa [nil_append, words_nil, nil_append] at h

theorem words_single (hne : w ≠ []) (hw : ∀ c ∈ w, sep c = false) : words sep w = [w] := by
  have hsplit : w.splitOnP sep = [w] := splitOnP_eq_singleton hw
  simp [words, hsplit, hne]

theorem words_word_cons (hne : w ≠ []) (hw : ∀ c ∈ w, sep c = false)
    (hc : sep c = true) (l : List α) : words sep (w ++ c :: l) = w :: words sep l := by
  rw [words_append_cons hc, words_single hne hw, singleton_append]

theorem words_dropWhile (l : List α) : words sep (l.dropWhile sep) = words sep l := by
  induction l with
  | nil => rfl
  | cons c l ih =>
    cases hc : sep c with
    | true => rw [dropWhile_cons_of_pos hc, ih, words_cons hc]
    | false => rw [dropWhile_cons_of_neg (by simp [hc])]

theorem words_of_head (hc : sep c = false) (l : List α) :
    words sep (c :: l) =
      (c :: l).takeWhile (fun x => !sep x) :: words sep ((c :: l).dropWhile fun x => !sep x) := by
  have hword : ∀ x ∈ (c :: l).takeWhile (fun x => !sep x), sep x = false := by
    intro x hx
    simpa using mem_takeWhile_imp hx
  have hne : (c :: l).takeWhile (fun x => !sep x) ≠ [] := by
    rw [takeWhile_cons_of_pos (by simp [hc])]
    exact cons_ne_nil _ _
  conv_lhs => rw [← takeWhile_append_dropWhile (p := fun x => !sep x) (l := c :: l)]
  cases hrest : (c :: l).dropWhile fun x => !sep x with
  | nil => rw [append_nil, words_single hne hword, words_nil]
  | cons d rest =>
    have hd : sep d = true := by
      have hhead := head_dropWhile_not (fun x => !sep x) (l := c :: l) (by simp [hrest])
      simpa [hrest] using hhead
    rw [words_word_cons hne hword hd, words_cons hd]

theorem words_eq_nil_iff : words sep l = [] ↔ ∀ c ∈ l, sep c = true := by
  rw [← words_dropWhile, ← dropWhile_eq_nil_iff]
  cases hrest : l.dropWhile sep with
  | nil => simp
  | cons c rest =>
    have hc : sep c = false := by
      have hhead := head_dropWhile_not sep (l := l) (by simp [hrest])
      simpa [hrest] using hhead
    rw [words_of_head hc]
    simp

theorem mem_of_mem_splitOnP (hw : w ∈ l.splitOnP sep) (hc : c ∈ w) : c ∈ l := by
  induction l generalizing w with
  | nil => simp_all
  | cons x l ih =>
    rw [splitOnP_cons_eq_if_modifyHead] at hw
    split at hw
    · rcases mem_cons.mp hw with rfl | hw
      · exact absurd hc not_mem_nil
      · exact mem_cons_of_mem x (ih hw hc)
    · cases hsplit : l.splitOnP sep with
      | nil => simp [hsplit] at hw
      | cons first others =>
        rw [hsplit, modifyHead_cons] at hw
        rcases mem_cons.mp hw with rfl | hw
        · rcases mem_cons.mp hc with rfl | hc
          · exact mem_cons_self
          · exact mem_cons_of_mem x (ih (by simp [hsplit]) hc)
        · exact mem_cons_of_mem x (ih (by simp [hsplit, hw]) hc)

theorem mem_of_mem_words (hw : w ∈ words sep l) (hc : c ∈ w) : c ∈ l :=
  mem_of_mem_splitOnP (mem_filter.mp hw).1 hc

section Cut

variable [DecidableEq α] {c : α} {p l w r : List α}

theorem takeWhile_ne_append (hw : c ∉ w) : (w ++ c :: l).takeWhile (· ≠ c) = w := by
  have hall : ∀ x ∈ w, decide (x ≠ c) = true := fun x hx => decide_eq_true (ne_of_mem_of_not_mem hx hw)
  rw [takeWhile_append_of_pos hall]
  simp

theorem dropWhile_ne_append (hw : c ∉ w) : (w ++ c :: l).dropWhile (· ≠ c) = c :: l := by
  have hall : ∀ x ∈ w, decide (x ≠ c) = true := fun x hx => decide_eq_true (ne_of_mem_of_not_mem hx hw)
  rw [dropWhile_append_of_pos hall]
  simp

theorem cut_iff :
    l.takeWhile (· ≠ c) = w ∧ (c :: p).isPrefixOf? (l.dropWhile (· ≠ c)) = some r ↔ l = w ++ c :: (p ++ r) ∧ c ∉ w := by
  rw [List.isPrefixOf?_eq_some_iff_append_eq]
  constructor
  · rintro ⟨rfl, hrest⟩
    refine ⟨?_, fun hmem => ?_⟩
    · rw [← cons_append, hrest, takeWhile_append_dropWhile]
    · simpa using mem_takeWhile_imp hmem
  · rintro ⟨rfl, hw⟩
    exact ⟨takeWhile_ne_append hw, (dropWhile_ne_append hw).symm⟩

end Cut

theorem cons_append_prefix_iff {c : α} {x y w l : List α} (hx : c ∉ x) (hw : c ∉ w) :
    x ++ c :: y <+: w ++ c :: l ↔ x = w ∧ y <+: l := by
  induction x generalizing w with
  | nil =>
    cases w with
    | nil => simp [cons_prefix_cons]
    | cons a w =>
      have hne : c ≠ a := fun h => hw (h ▸ mem_cons_self)
      simp [cons_prefix_cons, hne]
  | cons a x ih =>
    cases w with
    | nil =>
      have hne : a ≠ c := fun h => hx (h ▸ mem_cons_self)
      simp [cons_prefix_cons, hne]
    | cons b w =>
      have hrest := ih (fun h => hx (mem_cons_of_mem a h)) (fun h => hw (mem_cons_of_mem b h))
      simp [cons_prefix_cons, hrest, and_assoc]

theorem cons_append_infix_iff {c : α} {x y w l : List α} (hx : c ∉ x) (hw : c ∉ w) :
    x ++ c :: y <:+: w ++ c :: l ↔ (x <:+ w ∧ y <+: l) ∨ x ++ c :: y <:+: l := by
  induction w with
  | nil =>
    rw [nil_append, infix_cons_iff, suffix_nil]
    apply or_congr_left
    exact cons_append_prefix_iff hx not_mem_nil
  | cons a w ih =>
    rw [cons_append, infix_cons_iff, ih fun h => hw (mem_cons_of_mem a h), suffix_cons_iff,
      ← cons_append, cons_append_prefix_iff hx hw, or_and_right, or_assoc]

end Words
