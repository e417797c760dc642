import Mathlib.Algebra.Order.BigOperators.Group.List
import Mathlib.Algebra.Order.Ring.Nat
import Mathlib.Data.List.Nodup

/-!
# Templates with placeholders

A placeholder is an escape character and a letter. `expand` fills in all placeholders of a template at once, `passes` one letter after the other, and a later pass reads what the earlier ones have put in. The two agree when filling in the first letters makes no new placeholder of a later letter.
-/

namespace Template

open List Nat

variable {α : Type*} {esc : α} {fields : List (α × List α)}

structure Lettered (esc : α) (fields : List (α × List α)) : Prop where
  nodup : (fields.map Prod.fst).Nodup
  esc_notMem : esc ∉ fields.map Prod.fst

variable {filled : List (α × List α)} {field : α × List α} {x a y z : α} {v s t u : List α}

theorem Lettered.left (hfields : Lettered esc (filled ++ fields)) : Lettered esc filled := by
  obtain ⟨hnodup, hesc⟩ := hfields
  rw [map_append] at hnodup hesc
  exact ⟨hnodup.of_append_left, fun hmem => hesc (mem_append_left _ hmem)⟩

theorem Lettered.right (hfields : Lettered esc (filled ++ fields)) : Lettered esc fields := by
  obtain ⟨hnodup, hesc⟩ := hfields
  rw [map_append] at hnodup hesc
  exact ⟨hnodup.of_append_right, fun hmem => hesc (mem_append_right _ hmem)⟩

theorem Lettered.ne_esc (hfields : Lettered esc fields) (hfield : field ∈ fields) : field.1 ≠ esc := by
  rintro rfl
  exact hfields.esc_notMem (mem_map_of_mem hfield)

variable [DecidableEq α]

/-- How often the escape character is followed by `x`. -/
def occurrences (esc x : α) : List α → Nat
  | [] => 0
  | a :: s => (if a = esc ∧ s.head? = some x then 1 else 0) + occurrences esc x s

/-- All placeholders filled in at once. What is put in is not read again, and a letter without a field is left as it is. -/
def expand (esc : α) (fields : List (α × List α)) : List α → List α
  | [] => []
  | [a] => [a]
  | a :: x :: t =>
    match if a = esc then fields.lookup x else none with
    | some v => v ++ expand esc fields t
    | none => a :: expand esc fields (x :: t)

def passes (esc : α) (fields : List (α × List α)) (t : List α) : List α :=
  fields.foldl (fun s field => expand esc [field] s) t

/-- Each of the `fields` in its turn finds as many placeholders as the template has, when `filled` and the fields before it are filled in. -/
def Undisturbed (esc : α) (t : List α) : List (α × List α) → List (α × List α) → Prop
  | _, [] => True
  | filled, field :: fields =>
    occurrences esc field.1 (expand esc filled t) = occurrences esc field.1 t ∧
      Undisturbed esc t (filled ++ [field]) fields

instance decidableUndisturbed (t : List α) :
    ∀ filled fields, Decidable (Undisturbed esc t filled fields)
  | _, [] => .isTrue trivial
  | filled, field :: fields =>
    have := decidableUndisturbed t (filled ++ [field]) fields
    inferInstanceAs (Decidable (_ ∧ _))

/-! ### Filling in at once -/

theorem lookup_eq_none_iff : fields.lookup x = none ↔ x ∉ fields.map Prod.fst := by
  rw [List.lookup_eq_none_iff, mem_map]
  refine ⟨fun hall ⟨field, hfield, hletter⟩ => ?_, fun hnone field hfield => ?_⟩
  · exact bne_iff_ne.mp (hall field hfield) hletter.symm
  · exact bne_iff_ne.mpr fun hletter => hnone ⟨field, hfield, hletter.symm⟩

theorem expand_placeholder (hx : fields.lookup x = some v) (t : List α) :
    expand esc fields (esc :: x :: t) = v ++ expand esc fields t := by
  simp [expand, hx]

theorem expand_cons (ha : a = esc → ∀ x ∈ s.head?, fields.lookup x = none) :
    expand esc fields (a :: s) = a :: expand esc fields s := by
  cases s with
  | nil => rfl
  | cons x t =>
    have hnone : (if a = esc then fields.lookup x else none) = none := by
      split
      · exact ha ‹_› x rfl
      · rfl
    rw [expand, hnone]

theorem expand_cons_of_ne (ha : a ≠ esc) (s : List α) : expand esc fields (a :: s) = a :: expand esc fields s :=
  expand_cons (fun heq => absurd heq ha)

theorem expand_induction (esc : α) (fields : List (α × List α)) {motive : List α → Prop} (nil : motive [])
    (placeholder : ∀ x v t, fields.lookup x = some v → motive t → motive (esc :: x :: t))
    (literal : ∀ a s, (a = esc → ∀ x ∈ s.head?, fields.lookup x = none) → motive s →
      motive (a :: s)) : ∀ t, motive t
  | [] => nil
  | [a] => literal a [] (by simp) nil
  | a :: x :: t => by
    by_cases ha : a = esc
    · subst ha
      cases hx : fields.lookup x with
      | some v => exact placeholder x v t hx (expand_induction a fields nil placeholder literal t)
      | none =>
        refine literal a (x :: t) (fun _ y hy => ?_)
          (expand_induction a fields nil placeholder literal (x :: t))
        cases hy
        exact hx
    · exact literal a (x :: t) (fun heq => absurd heq ha)
        (expand_induction esc fields nil placeholder literal (x :: t))

theorem expand_nil (esc : α) (t : List α) : expand esc [] t = t := by
  induction t with
  | nil => rfl
  | cons a s ih => rw [expand_cons (fun _ _ _ => rfl), ih]

/-! ### Counting placeholders -/

theorem occurrences_placeholder (hy : y ≠ esc) (t : List α) :
    occurrences esc x (esc :: y :: t) = (if y = x then 1 else 0) + occurrences esc x t := by
  simp [occurrences, hy]

theorem occurrences_append_le (esc x : α) (v s : List α) :
    occurrences esc x v + occurrences esc x s ≤ occurrences esc x (v ++ s) := by
  induction v with
  | nil => simp [occurrences]
  | cons a v ih =>
    have hhead : (if a = esc ∧ v.head? = some x then 1 else 0) ≤
        (if a = esc ∧ (v ++ s).head? = some x then 1 else 0) := by
      cases v with
      | nil => simp
      | cons b v => exact le_refl _
    simp only [occurrences, cons_append]
    omega

theorem head_expand (hx : x ≠ esc) (hs : s.head? = some x) : (expand esc fields s).head? = some x := by
  cases s with
  | nil => cases hs
  | cons a s =>
    cases hs
    rw [expand_cons_of_ne hx, head?_cons]

theorem occurrences_cons_expand (fields : List (α × List α)) (hx : x ≠ esc) (a : α) (s : List α) :
    (if a = esc ∧ s.head? = some x then 1 else 0) ≤
      (if a = esc ∧ (expand esc fields s).head? = some x then 1 else 0) := by
  split
  · rename_i hopen
    rw [if_pos ⟨hopen.1, head_expand hx hopen.2⟩]
  · exact zero_le _

section

variable (hesc : fields.lookup esc = none)

include hesc

theorem ne_esc_of_lookup (hy : fields.lookup y = some v) : y ≠ esc := by
  rintro rfl
  rw [hesc] at hy
  cases hy

theorem occurrences_of_lookup (hx : fields.lookup x = none) (hy : fields.lookup y = some v) (t : List α) :
    occurrences esc x (esc :: y :: t) = occurrences esc x t := by
  have hyx : y ≠ x := by
    rintro rfl
    rw [hx] at hy
    cases hy
  rw [occurrences_placeholder (ne_esc_of_lookup hesc hy), if_neg hyx, zero_add]

theorem occurrences_le_expand (hxesc : x ≠ esc) (hx : fields.lookup x = none) (t : List α) :
    occurrences esc x t ≤ occurrences esc x (expand esc fields t) := by
  induction t using expand_induction esc fields with
  | nil => exact le_refl _
  | placeholder y v t hy ih =>
    rw [occurrences_of_lookup hesc hx hy, expand_placeholder hy]
    have happend := occurrences_append_le esc x v (expand esc fields t)
    omega
  | literal a s ha ih =>
    rw [expand_cons ha]
    have hhead := occurrences_cons_expand fields hxesc a s
    simp only [occurrences]
    omega

theorem occurrences_lt_expand (hxesc : x ≠ esc) (hx : fields.lookup x = none) (hy : fields.lookup y = some v)
    (hv : 0 < occurrences esc x v) (ht : 0 < occurrences esc y t) :
    occurrences esc x t < occurrences esc x (expand esc fields t) := by
  induction t using expand_induction esc fields with
  | nil => cases ht
  | placeholder b w t hb ih =>
    rw [occurrences_of_lookup hesc hx hb, expand_placeholder hb]
    have happend := occurrences_append_le esc x w (expand esc fields t)
    rw [occurrences_placeholder (ne_esc_of_lookup hesc hb)] at ht
    by_cases hby : b = y
    · obtain rfl : v = w := by rw [hby, hy] at hb; exact Option.some.inj hb
      have hle := occurrences_le_expand hesc hxesc hx t
      omega
    · rw [if_neg hby, zero_add] at ht
      have hlt := ih ht
      omega
  | literal a s ha ih =>
    have hclosed : ¬ (a = esc ∧ s.head? = some y) := by
      rintro ⟨haesc, hs⟩
      rw [ha haesc y hs] at hy
      cases hy
    rw [occurrences, if_neg hclosed, zero_add] at ht
    rw [expand_cons ha]
    have hhead := occurrences_cons_expand fields hxesc a s
    have hlt := ih ht
    simp only [occurrences]
    omega

end

/-! ### One field after the other -/

theorem expand_single_cons (ha : occurrences esc x (a :: s) = occurrences esc x s) :
    expand esc [(x, u)] (a :: s) = a :: expand esc [(x, u)] s := by
  apply expand_cons
  intro haesc y hy
  rw [lookup_eq_none_iff]
  intro hmem
  obtain rfl : y = x := by simpa using hmem
  rw [occurrences, if_pos ⟨haesc, hy⟩] at ha
  omega

theorem expand_single_append (hv : occurrences esc x (v ++ s) = occurrences esc x s) :
    expand esc [(x, u)] (v ++ s) = v ++ expand esc [(x, u)] s := by
  induction v with
  | nil => rfl
  | cons a v ih =>
    have happend := occurrences_append_le esc x v s
    have hcons : occurrences esc x (v ++ s) ≤ occurrences esc x (a :: (v ++ s)) :=
      le_add_left _ _
    rw [cons_append] at hv ⊢
    rw [expand_single_cons (by omega), ih (by omega), cons_append]

theorem lookup_append_single (y : α) :
    (fields ++ [(x, u)]).lookup y = (fields.lookup y).or (if y = x then some u else none) := by
  rw [lookup_append, lookup_cons, lookup_nil]
  by_cases hy : y = x
  · rw [if_pos hy, beq_iff_eq.mpr hy]
  · rw [if_neg hy, beq_eq_false_iff_ne.mpr hy]

theorem expand_single_expand (hesc : fields.lookup esc = none) (hxesc : x ≠ esc) (hx : fields.lookup x = none)
    (ht : occurrences esc x (expand esc fields t) = occurrences esc x t) :
    expand esc [(x, u)] (expand esc fields t) = expand esc (fields ++ [(x, u)]) t := by
  induction t using expand_induction esc fields with
  | nil => rfl
  | placeholder y v t hy ih =>
    have happend := occurrences_append_le esc x v (expand esc fields t)
    have hle := occurrences_le_expand hesc hxesc hx t
    rw [occurrences_of_lookup hesc hx hy, expand_placeholder hy] at ht
    rw [expand_placeholder hy, expand_single_append (by omega), ih (by omega),
      expand_placeholder (v := v) (by rw [lookup_append_single, hy, Option.some_or])]
  | literal a s ha ih =>
    have hle := occurrences_le_expand hesc hxesc hx s
    have hhead := occurrences_cons_expand fields hxesc a s
    rw [expand_cons ha] at ht ⊢
    simp only [occurrences] at ht
    by_cases hopen : a = esc ∧ s.head? = some x
    · -- a placeholder of the template's own
      obtain ⟨rfl, hs⟩ := hopen
      obtain ⟨s, rfl⟩ : ∃ t, s = x :: t := by
        cases s with
        | nil => cases hs
        | cons b s => cases hs; exact ⟨s, rfl⟩
      rw [if_pos ⟨rfl, head_expand hxesc hs⟩, if_pos ⟨rfl, hs⟩] at ht
      have hrest := ih (by omega)
      rw [expand_cons_of_ne hxesc, expand_cons_of_ne hxesc, expand_cons_of_ne hxesc] at hrest
      rw [expand_cons_of_ne hxesc, expand_placeholder (v := u) (by simp),
        expand_placeholder (v := u) (by simp [lookup_append_single, hx]),
        (List.cons.inj hrest).2]
    · rw [if_neg hopen] at ht
      have hsame : occurrences esc x (a :: expand esc fields s) =
          occurrences esc x (expand esc fields s) := by
        simp only [occurrences]
        omega
      rw [expand_single_cons hsame, ih (by omega), expand_cons]
      intro haesc y hy
      have hyx : y ≠ x := by
        rintro rfl
        exact hopen ⟨haesc, hy⟩
      rw [lookup_append_single, ha haesc y hy, if_neg hyx, Option.none_or]

theorem Lettered.lookup_esc (hfields : Lettered esc fields) : fields.lookup esc = none :=
  lookup_eq_none_iff.mpr hfields.esc_notMem

theorem Lettered.lookup_filled (hfields : Lettered esc (filled ++ fields))
    (hfield : field ∈ fields) : filled.lookup field.1 = none := by
  have hnodup := hfields.nodup
  rw [map_append] at hnodup
  rw [lookup_eq_none_iff]
  intro hmem
  exact disjoint_of_nodup_append hnodup hmem (mem_map_of_mem hfield)

theorem passes_cons (field : α × List α) (t : List α) :
    passes esc (field :: fields) t = passes esc fields (expand esc [field] t) := rfl

theorem expand_field (hfields : Lettered esc (filled ++ field :: fields))
    (ht : occurrences esc field.1 (expand esc filled t) = occurrences esc field.1 t) :
    expand esc [field] (expand esc filled t) = expand esc (filled ++ [field]) t :=
  expand_single_expand hfields.left.lookup_esc (hfields.right.ne_esc mem_cons_self)
    (hfields.lookup_filled mem_cons_self) ht

theorem passes_expand {filled : List (α × List α)} {t : List α}
    (hfields : Lettered esc (filled ++ fields)) (ht : Undisturbed esc t filled fields) :
    passes esc fields (expand esc filled t) = expand esc (filled ++ fields) t := by
  induction fields generalizing filled with
  | nil => rw [append_nil]; rfl
  | cons field fields ih =>
    rw [passes_cons, expand_field hfields ht.1]
    rw [append_cons filled field fields] at hfields ⊢
    exact ih hfields ht.2

theorem passes_eq_expand (hfields : Lettered esc fields)
    (ht : Undisturbed esc t [] fields) : passes esc fields t = expand esc fields t := by
  have heq := @passes_expand α esc fields _ [] t hfields ht
  rwa [expand_nil] at heq

/-! ### What the passes do otherwise -/

/-- How often the values of the placeholders bring in the character `z`. -/
def gain (esc z : α) (fields : List (α × List α)) (t : List α) : Nat :=
  (fields.map fun field => occurrences esc field.1 t * field.2.count z).sum

theorem gain_cons (z : α) (field : α × List α) (t : List α) :
    gain esc z (field :: fields) t =
      occurrences esc field.1 t * field.2.count z + gain esc z fields t := rfl

theorem gain_congr (hst : ∀ field ∈ fields, occurrences esc field.1 s = occurrences esc field.1 t) :
    gain esc z fields s = gain esc z fields t := by
  rw [gain, gain, map_congr_left fun field hfield => by rw [hst field hfield]]

theorem gain_mono (hst : ∀ field ∈ fields, occurrences esc field.1 s ≤ occurrences esc field.1 t) :
    gain esc z fields s ≤ gain esc z fields t :=
  sum_le_sum fun field hfield => mul_le_mul_right _ (hst field hfield)

theorem gain_placeholder (z : α) (hfields : Lettered esc fields) (hx : fields.lookup x = some v)
    (t : List α) : gain esc z fields (esc :: x :: t) = v.count z + gain esc z fields t := by
  have hxesc := ne_esc_of_lookup hfields.lookup_esc hx
  induction fields with
  | nil => cases hx
  | cons field fields ih =>
    obtain ⟨y, w⟩ := field
    have hsplit : Lettered esc ([(y, w)] ++ fields) := hfields
    rw [gain_cons, gain_cons, occurrences_placeholder hxesc]
    by_cases hletter : x = y
    · subst hletter
      obtain rfl : w = v := by simpa using hx
      have hsame : gain esc z fields (esc :: x :: t) = gain esc z fields t := by
        apply gain_congr
        intro other hother
        rw [occurrences_placeholder hxesc, if_neg, zero_add]
        rintro rfl
        have hnone := hsplit.lookup_filled hother
        simp at hnone
      rw [hsame, if_pos rfl, add_mul, one_mul, add_assoc]
    · have htail : fields.lookup x = some v := by
        rwa [lookup_cons, beq_eq_false_iff_ne.mpr hletter] at hx
      rw [ih hsplit.right htail, if_neg hletter, zero_add]
      exact add_left_comm _ _ _

theorem count_expand (hz : z ≠ esc) (hletter : z ∉ fields.map Prod.fst) (hfields : Lettered esc fields) (t : List α) :
    (expand esc fields t).count z = t.count z + gain esc z fields t := by
  induction t using expand_induction esc fields with
  | nil => simp [expand, gain, occurrences]
  | placeholder x v t hx ih =>
    have hxz : x ≠ z := by
      rintro rfl
      rw [lookup_eq_none_iff.mpr hletter] at hx
      cases hx
    rw [expand_placeholder hx, gain_placeholder z hfields hx, count_append, ih,
      count_cons_of_ne hz.symm, count_cons_of_ne hxz]
    omega
  | literal a s ha ih =>
    have hsame : gain esc z fields (a :: s) = gain esc z fields s := by
      apply gain_congr
      intro field hfield
      rw [occurrences, if_neg, zero_add]
      rintro ⟨haesc, hs⟩
      exact lookup_eq_none_iff.mp (ha haesc _ hs) (mem_map_of_mem hfield)
    rw [expand_cons ha, count_cons, count_cons, ih, hsame]
    omega

theorem count_le_passes (hz : z ≠ esc) (hletter : z ∉ fields.map Prod.fst)
    (hfields : Lettered esc fields) (t : List α) :
    t.count z + gain esc z fields t ≤ (passes esc fields t).count z := by
  induction fields generalizing t with
  | nil => exact le_refl _
  | cons field fields ih =>
    have hsplit : Lettered esc ([field] ++ fields) := hfields
    have hfirst := count_expand (t := t) hz (fun hmem => hletter (by simp_all)) hsplit.left
    have hrest := ih (fun hmem => hletter (mem_cons_of_mem _ hmem)) hsplit.right
      (expand esc [field] t)
    have hgain : gain esc z fields t ≤ gain esc z fields (expand esc [field] t) := by
      apply gain_mono
      intro other hother
      exact occurrences_le_expand hsplit.left.lookup_esc (hsplit.right.ne_esc hother)
        (hsplit.lookup_filled hother) t
    rw [passes_cons]
    simp only [gain, map_cons, map_nil, sum_cons, sum_nil] at *
    omega

theorem gain_append (z : α) (filled : List (α × List α)) (t : List α) :
    gain esc z (filled ++ fields) t = gain esc z filled t + gain esc z fields t := by
  simp [gain]

theorem count_lt_passes (hfields : Lettered esc (filled ++ field :: fields)) (hz : z ≠ esc)
    (hletter : z ∉ (filled ++ field :: fields).map Prod.fst) (hvalue : z ∈ field.2)
    (hmore : occurrences esc field.1 t < occurrences esc field.1 (expand esc filled t)) :
    (expand esc (filled ++ field :: fields) t).count z <
      (passes esc (field :: fields) (expand esc filled t)).count z := by
  have hletters : z ∉ filled.map Prod.fst ∧ z ∉ (field :: fields).map Prod.fst := by
    simpa [not_or] using hletter
  have hwhole := count_expand (t := t) hz hletter hfields
  have hfilled := count_expand (t := t) hz hletters.1 hfields.left
  have hpasses := count_le_passes hz hletters.2 hfields.right (expand esc filled t)
  have hrest : gain esc z fields t ≤ gain esc z fields (expand esc filled t) := by
    apply gain_mono
    intro other hother
    have hmem : other ∈ field :: fields := mem_cons_of_mem _ hother
    exact occurrences_le_expand hfields.left.lookup_esc (hfields.right.ne_esc hmem)
      (hfields.lookup_filled hmem) t
  have hfirst : occurrences esc field.1 t * field.2.count z <
      occurrences esc field.1 (expand esc filled t) * field.2.count z :=
    mul_lt_mul_of_pos_right hmore (List.count_pos_iff.mpr hvalue)
  rw [gain_append] at hwhole
  simp only [gain, map_cons, sum_cons] at *
  omega

theorem passes_expand_iff {filled : List (α × List α)} {t : List α} (hfields : Lettered esc (filled ++ fields))
    (hvalues : ∀ field ∈ fields, ∃ z ∈ field.2, z ≠ esc ∧ z ∉ (filled ++ fields).map Prod.fst) :
    passes esc fields (expand esc filled t) = expand esc (filled ++ fields) t ↔
      Undisturbed esc t filled fields := by
  refine ⟨fun heq => ?_, passes_expand hfields⟩
  induction fields generalizing filled with
  | nil => trivial
  | cons field fields ih =>
    have hmem : field ∈ field :: fields := mem_cons_self
    have hsame : occurrences esc field.1 (expand esc filled t) = occurrences esc field.1 t := by
      apply Nat.le_antisymm _ (occurrences_le_expand hfields.left.lookup_esc
        (hfields.right.ne_esc hmem) (hfields.lookup_filled hmem) t)
      apply Nat.le_of_not_lt
      intro hmore
      obtain ⟨z, hvalue, hz, hletter⟩ := hvalues field hmem
      have hlt := count_lt_passes hfields hz hletter hvalue hmore
      rw [heq] at hlt
      exact Nat.lt_irrefl _ hlt
    refine ⟨hsame, ?_⟩
    rw [passes_cons, expand_field hfields hsame] at heq
    rw [append_cons filled field fields] at hfields hvalues heq
    exact ih hfields (fun other hother => hvalues other (mem_cons_of_mem _ hother)) heq

theorem passes_eq_expand_iff (hfields : Lettered esc fields)
    (hvalues : ∀ field ∈ fields, ∃ z ∈ field.2, z ≠ esc ∧ z ∉ fields.map Prod.fst) :
    passes esc fields t = expand esc fields t ↔ Undisturbed esc t [] fields := by
  have hiff := @passes_expand_iff α esc fields _ [] t hfields hvalues
  rwa [expand_nil] at hiff

/-! ### Templates and values that are never disturbed -/

theorem expand_congr {fields' : List (α × List α)}
    (hagree : ∀ x, 0 < occurrences esc x t → fields.lookup x = fields'.lookup x) :
    expand esc fields t = expand esc fields' t := by
  induction t using expand_induction esc fields with
  | nil => rfl
  | placeholder x v t hx ih =>
    have hx' : fields'.lookup x = some v := by
      rw [← hagree x, hx]
      simp only [occurrences, head?_cons, and_self, if_true]
      omega
    rw [expand_placeholder hx, expand_placeholder hx', ih]
    intro y hy
    apply hagree
    simp only [occurrences]
    omega
  | literal a s ha ih =>
    have ha' : a = esc → ∀ x ∈ s.head?, fields'.lookup x = none := by
      intro haesc x hx
      rw [← hagree x, ha haesc x hx]
      rw [occurrences, if_pos ⟨haesc, hx⟩]
      omega
    rw [expand_cons ha, expand_cons ha', ih]
    intro y hy
    apply hagree
    simp only [occurrences]
    omega

theorem expand_of_unmentioned (ht : ∀ x ∈ fields.map Prod.fst, occurrences esc x t = 0) : expand esc fields t = t := by
  conv_rhs => rw [← expand_nil esc t]
  apply expand_congr
  intro x hx
  rw [lookup_nil, lookup_eq_none_iff]
  intro hmem
  rw [ht x hmem] at hx
  exact lt_irrefl _ hx

theorem undisturbed_of_unmentioned (ht : ∀ x ∈ ((filled ++ fields).map Prod.fst).dropLast, occurrences esc x t = 0) :
    Undisturbed esc t filled fields := by
  induction fields generalizing filled with
  | nil => trivial
  | cons field fields ih =>
    have hfilled : expand esc filled t = t := by
      apply expand_of_unmentioned
      intro x hx
      apply ht
      rw [map_append, map_cons, dropLast_append_cons]
      exact mem_append_left _ hx
    rw [append_cons filled field fields] at ht
    exact ⟨by rw [hfilled], ih ht⟩

end Template
