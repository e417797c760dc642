import Mathlib.Data.List.Basic

/-!
# Cutting a text into lexemes

A lexer is given by how many characters after the first one belong to a lexeme, which may depend on all that follows. The text is cut into lexemes from the left.
-/

namespace Lexer

open List

variable {α : Type*} (extent : α → List α → Nat)

/-- The lexemes of a text that is not longer than `n`. -/
def lexemesAux : Nat → List α → List (List α)
  | 0, _ => []
  | _ + 1, [] => []
  | n + 1, c :: rest => (c :: rest.take (extent c rest)) :: lexemesAux n (rest.drop (extent c rest))

def lexemes (s : List α) : List (List α) := lexemesAux extent s.length s

/-- The text `w ++ rest` begins with the lexeme `w`. -/
def Begins (w rest : List α) : Prop :=
  ∃ c w', w = c :: w' ∧ (w' ++ rest).take (extent c (w' ++ rest)) = w'

/-- The text `ws.flatten ++ rest` begins with the lexemes `ws`. -/
def Lexed : List (List α) → List α → Prop
  | [], _ => True
  | w :: ws, rest => Begins extent w (ws.flatten ++ rest) ∧ Lexed ws rest

variable {extent} {s rest : List α} {w : List α} {ws vs : List (List α)}

theorem lexemesAux_eq {n m : Nat} (hn : s.length ≤ n) (hm : s.length ≤ m) :
    lexemesAux extent n s = lexemesAux extent m s := by
  induction n generalizing m s with
  | zero =>
    obtain rfl : s = [] := length_eq_zero_iff.mp (Nat.le_zero.mp hn)
    cases m <;> rfl
  | succ n ih =>
    cases s with
    | nil => cases m <;> rfl
    | cons c rest =>
      cases m with
      | zero => simp at hm
      | succ m =>
        grind [lexemesAux]

@[simp] theorem lexemes_nil : lexemes extent [] = [] := rfl

theorem lexemes_cons (c : α) (rest : List α) :
    lexemes extent (c :: rest) = (c :: rest.take (extent c rest)) :: lexemes extent (rest.drop (extent c rest)) := by
  grind [lexemes, lexemesAux, lexemesAux_eq]

theorem flatten_lexemes (s : List α) : (lexemes extent s).flatten = s := by
  induction hn : s.length using Nat.strongRecOn generalizing s with
  | ind n ih =>
    cases s with
    | nil => rfl
    | cons c rest =>
      have hlt : (rest.drop (extent c rest)).length < n := by
        grind
      rw [lexemes_cons, flatten_cons, ih _ hlt _ rfl, cons_append, take_append_drop]

theorem lexemes_append_of_begins (hw : Begins extent w rest) :
    lexemes extent (w ++ rest) = w :: lexemes extent rest := by
  obtain ⟨c, w', rfl, htake⟩ := hw
  have hdrop : (w' ++ rest).drop (extent c (w' ++ rest)) = rest := by
    have hboth := take_append_drop (extent c (w' ++ rest)) (w' ++ rest)
    grind
  rw [cons_append, lexemes_cons, htake, hdrop]

theorem lexemes_append_of_lexed (hws : Lexed extent ws rest) :
    lexemes extent (ws.flatten ++ rest) = ws ++ lexemes extent rest := by
  induction ws with
  | nil => rfl
  | cons w ws ih =>
    rw [flatten_cons, append_assoc, lexemes_append_of_begins hws.1, ih hws.2, cons_append]

theorem lexed_append : Lexed extent (ws ++ vs) rest ↔ Lexed extent ws (vs.flatten ++ rest) ∧ Lexed extent vs rest := by
  induction ws with
  | nil => simp [Lexed]
  | cons w ws ih => simp only [cons_append, Lexed, ih, flatten_append, append_assoc, and_assoc]

theorem lexemes_single {c : α} (hextent : extent c rest = rest.length) : lexemes extent (c :: rest) = [c :: rest] := by
  rw [lexemes_cons, hextent, take_length, drop_length, lexemes_nil]

theorem lexed_of_lexemes (hs : lexemes extent s = ws ++ vs) : Lexed extent ws vs.flatten := by
  induction ws generalizing s with
  | nil => trivial
  | cons w ws ih =>
    cases s with
    | nil => simp at hs
    | cons c rest =>
      rw [lexemes_cons, cons_append] at hs
      obtain ⟨rfl, hrest⟩ := List.cons.inj hs
      have hflatten : ws.flatten ++ vs.flatten = rest.drop (extent c rest) := by
        rw [← flatten_append, ← hrest, flatten_lexemes]
      refine ⟨⟨c, _, rfl, ?_⟩, ih hrest⟩
      rw [hflatten, take_append_drop]

theorem lexed_of_lexemes_cons (hs : lexemes extent s = ws ++ w :: vs) :
    Lexed extent ws (w ++ vs.flatten) ∧ Begins extent w vs.flatten ∧ lexemes extent vs.flatten = vs := by
  have hfront := lexed_of_lexemes hs
  rw [append_cons] at hs
  have hall := lexed_of_lexemes hs
  have htext : (ws ++ [w]).flatten ++ vs.flatten = s := by rw [← flatten_append, ← hs, flatten_lexemes]
  refine ⟨by rwa [flatten_cons] at hfront, ?_, ?_⟩
  · have hlast := (lexed_append.mp hall).2.1
    rwa [flatten_nil, nil_append] at hlast
  · have hlexemes := lexemes_append_of_lexed hall
    rw [htext, hs] at hlexemes
    exact (append_cancel_left hlexemes).symm

theorem exists_lexeme_at (extent : α → List α → Nat) (front : List α) (x : α) (back : List α) :
    ∃ ws u v vs, lexemes extent (front ++ x :: back) = ws ++ (u ++ x :: v) :: vs ∧ front = ws.flatten ++ u ∧
      back = v ++ vs.flatten := by
  have hall (ls : List (List α)) : ∀ front, ls.flatten = front ++ x :: back →
      ∃ ws u v vs, ls = ws ++ (u ++ x :: v) :: vs ∧ front = ws.flatten ++ u ∧ back = v ++ vs.flatten := by
    induction ls with
    | nil => simp
    | cons l ls ih =>
      intro front hflatten
      rw [flatten_cons] at hflatten
      rcases append_eq_append_iff.mp hflatten with ⟨more, hfront, hrest⟩ | ⟨u, hl, hrest⟩
      · grind
      · cases u with
        | nil =>
          grind
        | cons y v =>
          rw [cons_append] at hrest
          obtain ⟨rfl, hback⟩ := List.cons.inj hrest
          exact ⟨[], front, v, ls, by rw [hl, nil_append], by simp, hback⟩
  exact hall _ front (flatten_lexemes _)

theorem begins_cons_iff {c d : α} {w' : List α} :
    Begins extent (c :: w') (d :: rest) ↔ extent c (w' ++ d :: rest) = w'.length := by
  constructor
  · rintro ⟨_, _, heq, htake⟩
    grind
  · intro hextent
    exact ⟨c, w', rfl, by rw [hextent, take_left]⟩

end Lexer
