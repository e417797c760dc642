import Mathlib.Data.List.DropRight

/-!
# Loops that test at the end

A loop of the form `do … while (…)` with a limit on the number of turns. If every further turn lowers a measure, any limit above the measure is enough. The second part is about a list that is cut behind its first separator as long as one is left.
-/

namespace DoWhile

open List

section Loop

variable {σ τ : Type*} (next : σ → σ) (again : σ → Bool)

/-- `do s = next(s); while (again(s));`, unless the limit is reached. -/
def run : Nat → σ → Option σ
  | 0, _ => none
  | n + 1, s => if again (next s) then run n (next s) else some (next s)

def visited : Nat → σ → List σ
  | 0, _ => []
  | n + 1, s => s :: if again (next s) then visited n (next s) else []

variable {next again} {μ : σ → Nat}

theorem run_emit (hμ : ∀ s, again (next s) = true → μ (next s) < μ s) (emit : τ → σ → τ) {n : Nat} {s : σ} (hn : μ s < n)
    (acc : τ) : ∃ last,
      run (fun p : τ × σ => (emit p.1 p.2, next p.2)) (fun p => again p.2) n (acc, s) =
        some ((visited next again n s).foldl emit acc, last) := by
  induction n generalizing s acc with
  | zero => omega
  | succ n ih =>
    rw [run, visited]
    by_cases hagain : again (next s) = true
    · have hless := hμ s hagain
      obtain ⟨last, hlast⟩ := ih (s := next s) (by omega) (emit acc s)
      grind
    · refine ⟨next s, ?_⟩
      rw [if_neg hagain, if_neg hagain]
      rfl

theorem visited_eq (hμ : ∀ s, again (next s) = true → μ (next s) < μ s) {m n : Nat} {s : σ} (hm : μ s < m) (hn : μ s < n) :
    visited next again m s = visited next again n s := by
  induction m generalizing n s with
  | zero => omega
  | succ m ih =>
    cases n with
    | zero => omega
    | succ n =>
      grind [visited]

end Loop

section Cut

variable {α : Type*} [DecidableEq α] (sep : α)

def afterFirst (l : List α) : List α := if sep ∈ l then (l.dropWhile (· ≠ sep)).drop 1 else l

def beforeLast (l : List α) : List α := if sep ∈ l then ((l.reverse.dropWhile (· ≠ sep)).drop 1).reverse else l

variable {sep}

variable {pre l : List α} {n : Nat}

theorem afterFirst_append (hpre : sep ∉ pre) (l : List α) : afterFirst sep (pre ++ sep :: l) = l := by
  have hall : ∀ x ∈ pre, decide (x ≠ sep) = true := by
    grind
  rw [afterFirst, if_pos (by simp), dropWhile_append_of_pos hall]
  simp

theorem afterFirst_of_notMem (hl : sep ∉ l) : afterFirst sep l = l := if_neg hl

theorem beforeLast_eq (l : List α) : beforeLast sep l = (afterFirst sep l.reverse).reverse := by
  grind [beforeLast, afterFirst]

theorem length_afterFirst_lt (hsep : sep ∈ l) : (afterFirst sep l).length < l.length := by
  obtain ⟨pre, post, rfl, hpre⟩ := eq_append_cons_of_mem hsep
  rw [afterFirst_append hpre, length_append, length_cons]
  omega

theorem length_lt_of_mem_afterFirst (l : List α) (hsep : decide (sep ∈ afterFirst sep l) = true) :
    (afterFirst sep l).length < l.length := by
  apply length_afterFirst_lt
  grind [afterFirst_of_notMem]

omit [DecidableEq α] in
theorem after_iff (hpre : sep ∉ pre) (post s : List α) :
    (∃ before, pre ++ sep :: post = before ++ sep :: s) ↔ s = post ∨ ∃ before, post = before ++ sep :: s := by
  constructor
  · rintro ⟨before, heq⟩
    rcases append_eq_append_iff.mp heq with ⟨mid, hbefore, hrest⟩ | ⟨mid, rfl, hrest⟩
    · cases mid with
      | nil => exact .inl (cons.inj hrest).2.symm
      | cons c mid => exact .inr ⟨mid, (cons.inj hrest).2⟩
    · cases mid with
      | nil => exact .inl (cons.inj hrest).2
      | cons c mid =>
        grind
  · rintro (rfl | ⟨before, rfl⟩)
    · exact ⟨pre, rfl⟩
    · exact ⟨pre ++ sep :: before, by simp⟩

theorem mem_visited_afterFirst (hn : l.length < n) (s : List α) :
    s ∈ visited (afterFirst sep) (fun l => sep ∈ l) n l ↔ s = l ∨ (∃ before, l = before ++ sep :: s) ∧ sep ∈ s := by
  induction n generalizing l with
  | zero => omega
  | succ n ih =>
    rw [visited, mem_cons]
    apply or_congr_right
    by_cases hsep : sep ∈ l
    · obtain ⟨pre, post, rfl, hpre⟩ := eq_append_cons_of_mem hsep
      rw [afterFirst_append hpre, after_iff hpre]
      by_cases hagain : sep ∈ post
      · grind
      · grind
    · grind [afterFirst_of_notMem]

theorem visited_beforeLast (n : Nat) (l : List α) :
    visited (beforeLast sep) (fun l => sep ∈ l) n l =
      (visited (afterFirst sep) (fun l => sep ∈ l) n l.reverse).map reverse := by
  induction n generalizing l with
  | zero => rfl
  | succ n ih =>
    grind [visited, beforeLast_eq]

theorem mem_visited_beforeLast (hn : l.length < n) (s : List α) :
    s ∈ visited (beforeLast sep) (fun l => sep ∈ l) n l ↔ s = l ∨ (∃ after, l = s ++ sep :: after) ∧ sep ∈ s := by
  have hturn : (∃ after, l = s ++ sep :: after) ↔ ∃ before, l.reverse = before ++ sep :: s.reverse := by
    constructor
    · rintro ⟨after, rfl⟩
      exact ⟨after.reverse, by simp⟩
    · rintro ⟨before, heq⟩
      refine ⟨before.reverse, ?_⟩
      rw [← reverse_reverse l, heq]
      simp
  rw [visited_beforeLast, ← reverse_reverse s, mem_map_of_injective reverse_injective,
    mem_visited_afterFirst (by rwa [length_reverse]), reverse_reverse, hturn, mem_reverse,
    reverse_inj]

theorem length_lt_of_mem_beforeLast (l : List α) (hsep : decide (sep ∈ beforeLast sep l) = true) :
    (beforeLast sep l).length < l.length := by
  have hturn := @beforeLast_eq α _ sep l
  have hless := @length_lt_of_mem_afterFirst α _ sep l.reverse
  grind

end Cut

end DoWhile
