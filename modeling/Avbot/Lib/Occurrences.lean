import Avbot.Lib.Pattern

/-!
# Successive matches

The matches of a sequence of items in a text, from left to right and without overlaps. A character that no item takes separates the matches before it from those after it.
-/

namespace Pattern

open List Option

variable {α : Type*} {its : List (Item α)} {s t rest pre left back : List α} {ts us : List (List α)} {i : Nat} {c : α}

section

variable (hsearch : searchItems its s = some (pre, ts, rest))

include hsearch

theorem searchItems_cases :
    ∃ t, s = pre ++ t ∧ matchFront (fun _ => true) its t = some (ts, rest) ∧
      ∀ p q, pre = p ++ q → q ≠ [] → matchFront (fun _ => true) its (q ++ t) = none := by
  have hempty : ∀ {t : List α} {p q : List α}, [] = p ++ q → q ≠ [] → matchFront (fun _ => true) its (q ++ t) = none :=
    fun hsplit hq => absurd (append_eq_nil_iff.mp hsplit.symm).2 hq
  induction s generalizing pre with
  | nil =>
    rw [searchItems] at hsearch
    obtain ⟨⟨ts', rest'⟩, hfront, heq⟩ := map_eq_some_iff.mp hsearch
    obtain ⟨rfl, htail⟩ := Prod.mk.inj heq
    exact ⟨[], rfl, hfront.trans (congrArg some htail), fun _ _ => hempty⟩
  | cons c s ih =>
    rw [searchItems] at hsearch
    cases hfront : matchFront (fun _ => true) its (c :: s) with
    | some m =>
      rw [hfront] at hsearch
      obtain ⟨rfl, heq⟩ := Prod.mk.inj (some.inj hsearch)
      exact ⟨c :: s, rfl, hfront.trans (congrArg some heq), fun _ _ => hempty⟩
    | none =>
      rw [hfront] at hsearch
      obtain ⟨⟨pre', m⟩, hrest, heq⟩ := map_eq_some_iff.mp hsearch
      obtain ⟨rfl, rfl⟩ := Prod.mk.inj heq
      obtain ⟨t, rfl, ht, hbefore⟩ := ih hrest
      refine ⟨t, rfl, ht, fun p q hsplit hq => ?_⟩
      cases p with
      | nil => rw [← show c :: pre' = q from hsplit]; exact hfront
      | cons d p => exact hbefore p q (cons.inj hsplit).2 hq

theorem searchItems_leftmost (hs : s = left ++ (us.flatten ++ back))
    (hfits : List.Forall₂ Item.Fits its us) : pre.length ≤ left.length := by
  obtain ⟨t, rfl, -, hbefore⟩ := searchItems_cases hsearch
  by_contra hlt
  obtain ⟨q, rfl⟩ := prefix_of_prefix_length_le ⟨_, hs.symm⟩ (prefix_append pre t) (Nat.le_of_not_le hlt)
  have hq : q ≠ [] := by
    rintro rfl
    simp at hlt
  rw [append_assoc, append_cancel_left_eq] at hs
  exact matchFront_complete (hbefore left q rfl hq) hs rfl hfits

theorem matchFront_of_searchItems : matchFront (fun _ => true) its (ts.flatten ++ rest) = some (ts, rest) := by
  obtain ⟨t, -, ht, -⟩ := searchItems_cases hsearch
  rw [← (matchFront_sound ht).1, ht]

end

theorem searchItems_append (hnone : ∀ p q, left = p ++ q → q ≠ [] → matchFront (fun _ => true) its (q ++ s) = none) :
    searchItems its (left ++ s) = (searchItems its s).map fun m => (left ++ m.1, m.2) := by
  induction left with
  | nil => exact Option.map_id'.symm
  | cons c left ih =>
    have hfront := hnone [] (c :: left) rfl (cons_ne_nil c left)
    rw [cons_append] at hfront ⊢
    rw [searchItems, hfront, ih fun p q hleft hq => hnone (c :: p) q (by rw [hleft, cons_append]) hq, Option.map_map]
    rfl

theorem searchItems_of_matchFront (hmatch : matchFront (fun _ => true) its s = some (ts, rest)) :
    searchItems its s = some ([], ts, rest) := by
  cases s with
  | nil => rw [searchItems, hmatch]; rfl
  | cons c s => rw [searchItems, hmatch]

variable {ok : List α → Bool}

theorem matchFront_append {its' : List (Item α)} (hmatch : matchFront ok (its ++ its') s = some (ts, rest)) :
    ∃ us vs mid, ts = us ++ vs ∧ s = us.flatten ++ mid ∧ List.Forall₂ Item.Fits its us ∧
      matchFront ok its' mid = some (vs, rest) := by
  induction its generalizing s ts with
  | nil => exact ⟨[], ts, s, rfl, rfl, .nil, hmatch⟩
  | cons it its ih =>
    obtain ⟨k, hk, hnext⟩ := exists_of_findSome?_eq_some hmatch
    obtain ⟨⟨ts', rest'⟩, hits, heq⟩ := map_eq_some_iff.mp hnext
    obtain ⟨rfl, rfl⟩ := Prod.mk.inj heq
    obtain ⟨us, vs, mid, rfl, hdrop, hfits, hmid⟩ := ih hits
    refine ⟨s.take k :: us, vs, mid, rfl, ?_, .cons (Item.mem_lengths.mp hk).2 hfits, hmid⟩
    rw [flatten_cons, append_assoc, ← hdrop, take_append_drop]

theorem matchFront_longer {it : Item α} {u : List α} (hgreedy : it.greedy = true)
    (hmatch : matchFront ok (it :: its) s = some (u :: ts, rest)) {k : Nat} (hk : k ∈ it.lengths s) (hlonger : u.length < k) :
    matchFront ok its (s.drop k) = none := by
  have hdecreasing : (it.lengths s).Pairwise (· > ·) := by
    rw [Item.lengths, if_pos hgreedy, pairwise_reverse]
    exact pairwise_lt_range.filter _
  rw [matchFront, findSome?_eq_some_iff] at hmatch
  obtain ⟨before, j, after, hsplit, hj, hbefore⟩ := hmatch
  obtain ⟨m, -, heq⟩ := map_eq_some_iff.mp hj
  obtain ⟨hu, -⟩ := cons.inj (Prod.mk.inj heq).1
  have hjmem : j ∈ it.lengths s := by rw [hsplit]; simp
  have hlength : u.length = j := by rw [← hu, length_take, Nat.min_eq_left (Item.mem_lengths.mp hjmem).1]
  rw [hsplit] at hk hdecreasing
  rw [pairwise_append, pairwise_cons] at hdecreasing
  rcases mem_append.mp hk with hmem | hmem
  · exact map_eq_none_iff.mp (hbefore k hmem)
  · grind

theorem forall_mem_flatten {p : α → Prop} (hits : ∀ it ∈ its, ∀ c, it.cls c = true → p c)
    (hfits : List.Forall₂ Item.Fits its ts) : ∀ c ∈ ts.flatten, p c := by
  induction hfits with
  | nil => simp
  | @cons it t its ts hfit hfits ih =>
    intro c hmem
    rw [flatten_cons] at hmem
    rcases mem_append.mp hmem with hmem | hmem
    · exact hits it mem_cons_self c (hfit.1 c hmem)
    · grind

section Separator

variable (hc : ∀ it ∈ its, it.cls c = false)

theorem findSome?_congr {β γ : Type*} {f g : β → Option γ} {l : List β} (hfg : ∀ b ∈ l, f b = g b) :
    l.findSome? f = l.findSome? g := by
  induction l with
  | nil => rfl
  | cons b l ih =>
    grind

theorem lengths_separator {it : Item α} (hit : it.cls c = false) (s back : List α) :
    it.lengths (s ++ c :: back) = it.lengths s := by
  have hrun : (s ++ c :: back).takeWhile it.cls = s.takeWhile it.cls := by
    induction s with
    | nil => simp [hit]
    | cons d s ih => by_cases hd : it.cls d = true <;> simp [hd, ih]
  rw [Item.lengths, hrun, Item.lengths]

include hc in
theorem matchFront_separator (s back : List α) :
    matchFront (fun _ => true) its (s ++ c :: back) =
      (matchFront (fun _ => true) its s).map fun m => (m.1, m.2 ++ c :: back) := by
  induction its generalizing s with
  | nil => rfl
  | cons it its ih =>
    have hrest := ih fun it' hit' => hc it' (mem_cons_of_mem it hit')
    rw [matchFront, matchFront, lengths_separator (hc it mem_cons_self)]
    have hstep : ∀ k ∈ it.lengths s,
        ((matchFront (fun _ => true) its ((s ++ c :: back).drop k)).map fun m => ((s ++ c :: back).take k :: m.1, m.2)) =
          ((matchFront (fun _ => true) its (s.drop k)).map fun m => (s.take k :: m.1, m.2)).map
            fun m => (m.1, m.2 ++ c :: back) := by
      intro k hk
      have hle := (Item.mem_lengths.mp hk).1
      rw [drop_append_of_le_length hle, take_append_of_le_length hle, hrest, Option.map_map, Option.map_map]
      rfl
    rw [map_findSome?]
    exact findSome?_congr hstep

include hc in
theorem searchItems_separator_some (hs : searchItems its s = some (pre, ts, rest)) (back : List α) :
    searchItems its (s ++ c :: back) = some (pre, ts, rest ++ c :: back) := by
  obtain ⟨t, rfl, ht, hbefore⟩ := searchItems_cases hs
  have hfront : matchFront (fun _ => true) its (t ++ c :: back) = some (ts, rest ++ c :: back) := by
    rw [matchFront_separator hc, ht]
    rfl
  rw [append_assoc, searchItems_append fun p q hsplit hq => ?_, searchItems_of_matchFront hfront]
  · simp
  · rw [← append_assoc, matchFront_separator hc, hbefore p q hsplit hq]
    rfl

include hc in
theorem searchItems_separator_none (hs : searchItems its s = none) (back : List α) :
    searchItems its ((s ++ [c]) ++ back) = (searchItems its back).map fun m => ((s ++ [c]) ++ m.1, m.2) := by
  refine searchItems_append fun p q hsplit hq => ?_
  -- a match in front would end before the separator
  obtain ⟨q, rfl⟩ : ∃ q', q = q' ++ [c] := by
    obtain ⟨q', d, rfl⟩ := (eq_nil_or_concat q).resolve_left hq
    rw [concat_eq_append, ← append_assoc] at hsplit
    exact ⟨q', by rw [concat_eq_append, (append_inj' hsplit rfl).2]⟩
  rw [← append_assoc] at hsplit
  obtain ⟨rfl, -⟩ := append_inj' hsplit rfl
  rw [append_assoc, singleton_append, matchFront_separator hc, map_eq_none_iff]
  by_contra hmatch
  obtain ⟨⟨ts, rest⟩, hts⟩ := ne_none_iff_exists'.mp hmatch
  obtain ⟨hq', -, hfits⟩ := matchFront_sound hts
  exact searchItems_complete hs (by rw [hq']) hfits

end Separator

inductive Occurrences (its : List (Item α)) : Nat → List α → List (Nat × List α) → Prop
  | nil {i : Nat} {s : List α} (hnone : searchItems its s = none) : Occurrences its i s []
  | cons {i : Nat} {s pre rest : List α} {ts : List (List α)} {l : List (Nat × List α)}
      (hsearch : searchItems its s = some (pre, ts, rest))
      (hrest : Occurrences its (i + pre.length + ts.flatten.length) rest l) :
      Occurrences its i s ((i + pre.length, ts.flatten) :: l)

namespace Occurrences

variable {l : List (Nat × List α)}

theorem cons_iff (hsearch : searchItems its s = some (pre, ts, rest)) {k : Nat} {t : List α} :
    Occurrences its i s ((k, t) :: l) ↔
      k = i + pre.length ∧ t = ts.flatten ∧ Occurrences its (i + pre.length + ts.flatten.length) rest l := by
  constructor
  · intro hl
    cases hl with
    | cons hsearch' hrest =>
      grind
  · rintro ⟨rfl, rfl, hrest⟩
    exact .cons hsearch hrest

theorem place_le (hl : Occurrences its i s l) {k : Nat} {t : List α} (hmem : (k, t) ∈ l) : i ≤ k := by
  induction hl with
  | nil => cases hmem
  | cons hsearch hrest ih =>
    grind

theorem append_iff (hsearch : searchItems its (left ++ s) = (searchItems its s).map fun m => (left ++ m.1, m.2)) :
    Occurrences its i (left ++ s) l ↔ Occurrences its (i + left.length) s l := by
  constructor
  · intro hl
    cases hl with
    | nil hnone =>
      rw [hsearch, map_eq_none_iff] at hnone
      exact .nil hnone
    | cons hsome hrest =>
      rw [hsearch] at hsome
      obtain ⟨⟨pre, ts, rest⟩, hs, heq⟩ := map_eq_some_iff.mp hsome
      obtain ⟨rfl, htail⟩ := Prod.mk.inj heq
      obtain ⟨rfl, rfl⟩ := Prod.mk.inj htail
      rw [length_append, ← Nat.add_assoc] at hrest ⊢
      exact .cons hs hrest
  · intro hl
    cases hl with
    | nil hnone => exact .nil (by rw [hsearch, hnone]; rfl)
    | @cons _ _ pre rest ts l hs hrest =>
      have hsome : searchItems its (left ++ s) = some (left ++ pre, ts, rest) := by rw [hsearch, hs]; rfl
      rw [Nat.add_assoc i, ← length_append] at hrest ⊢
      exact .cons hsome hrest

theorem separator_iff (hc : ∀ it ∈ its, it.cls c = false) :
    Occurrences its i (s ++ c :: back) l ↔
      ∃ l₁ l₂, l = l₁ ++ l₂ ∧ Occurrences its i s l₁ ∧ Occurrences its (i + s.length + 1) back l₂ := by
  -- where the front has no match, it is left out together with the separator
  have hskip : ∀ {s : List α} {i : Nat} {l : List (Nat × List α)}, searchItems its s = none →
      (Occurrences its i (s ++ c :: back) l ↔ Occurrences its (i + s.length + 1) back l) := by
    intro s i l hnone
    have happend := append_iff (i := i) (l := l) (searchItems_separator_none hc hnone back)
    rwa [append_assoc, length_append, ← Nat.add_assoc] at happend
  constructor
  · intro hl
    generalize htext : s ++ c :: back = text at hl
    induction hl generalizing s with
    | @nil i text hnone =>
      subst htext
      cases hs : searchItems its s with
      | none => exact ⟨[], [], rfl, .nil hs, (hskip hs).mp (.nil hnone)⟩
      | some m =>
        rw [searchItems_separator_some hc hs] at hnone
        cases hnone
    | @cons i text pre rest ts l hsome hrest ih =>
      subst htext
      cases hs : searchItems its s with
      | none => exact ⟨[], _, rfl, .nil hs, (hskip hs).mp (.cons hsome hrest)⟩
      | some m =>
        obtain ⟨pre', ts', rest'⟩ := m
        obtain ⟨rfl, rfl, rfl⟩ : pre' = pre ∧ ts' = ts ∧ rest' ++ c :: back = rest := by
          simpa using (searchItems_separator_some hc hs back).symm.trans hsome
        obtain ⟨l₁, l₂, rfl, hfront, hback⟩ := ih rfl
        have hlength := congrArg length (searchItems_sound hs).1
        simp only [length_append] at hlength
        refine ⟨_ :: l₁, l₂, rfl, .cons hs hfront, ?_⟩
        rwa [show i + s.length = i + pre'.length + ts'.flatten.length + rest'.length by omega]
  · rintro ⟨l₁, l₂, rfl, hfront, hback⟩
    induction hfront with
    | nil hnone => exact (hskip hnone).mpr hback
    | @cons i s pre rest ts l hs hrest ih =>
      have hlength := congrArg length (searchItems_sound hs).1
      simp only [length_append] at hlength
      refine .cons (searchItems_separator_some hc hs back) (ih ?_)
      rwa [show i + pre.length + ts.flatten.length + rest.length = i + s.length by omega]

end Occurrences

end Pattern
