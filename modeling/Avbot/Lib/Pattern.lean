import Mathlib.Data.List.Forall2

/-!
# Sequences of quantified classes

The regular expressions that have no alternatives and repeat nothing but classes of characters, greedy or lazy, matched by backtracking: each class tries its lengths in the order of its preference, and the first attempt that lets everything after it match wins.
-/

namespace Pattern

open List Option

variable {α : Type*}

structure Item (α : Type*) where
  cls : α → Bool
  lo : Nat
  hi : Option Nat
  greedy : Bool

namespace Item

def one (p : α → Bool) : Item α := ⟨p, 1, some 1, true⟩

def opt (p : α → Bool) : Item α := ⟨p, 0, some 1, true⟩

def many (p : α → Bool) : Item α := ⟨p, 0, none, true⟩

def fewest (p : α → Bool) : Item α := ⟨p, 0, none, false⟩

def some (p : α → Bool) : Item α := ⟨p, 1, none, true⟩

def Fits (it : Item α) (t : List α) : Prop :=
  (∀ c ∈ t, it.cls c = true) ∧ it.lo ≤ t.length ∧ ∀ h ∈ it.hi, t.length ≤ h

theorem fits_one_iff {p : α → Bool} {t : List α} : (one p).Fits t ↔ ∃ c, t = [c] ∧ p c = true := by
  constructor
  · rintro ⟨hcls, hlo, hhi⟩
    obtain ⟨c, rfl⟩ := length_eq_one_iff.mp (Nat.le_antisymm (hhi 1 rfl) hlo)
    exact ⟨c, rfl, hcls c (by simp)⟩
  · rintro ⟨c, rfl, hc⟩
    exact ⟨by simpa [one] using hc, Nat.le_refl 1, by simp [one]⟩

theorem fits_one_eq_iff [DecidableEq α] {c : α} {t : List α} : (one (· == c)).Fits t ↔ t = [c] := by simp [fits_one_iff]

def lengths (it : Item α) (s : List α) : List Nat :=
  let run := (s.takeWhile it.cls).length
  let top := it.hi.elim run (min run)
  let upward := (List.range (top + 1)).filter (it.lo ≤ ·)
  if it.greedy then upward.reverse else upward

theorem mem_lengths {it : Item α} {s : List α} {k : Nat} : k ∈ it.lengths s ↔ k ≤ s.length ∧ it.Fits (s.take k) := by
  have hrun : k ≤ (s.takeWhile it.cls).length ↔ k ≤ s.length ∧ ∀ c ∈ s.take k, it.cls c = true := by
    induction s generalizing k with
    | nil => cases k <;> simp
    | cons c s ih =>
      cases k with
      | zero => simp
      | succ k => by_cases hc : it.cls c = true <;> simp [hc, ih]
  have hup : k ∈ it.lengths s ↔
      k ≤ it.hi.elim (s.takeWhile it.cls).length (min (s.takeWhile it.cls).length) ∧ it.lo ≤ k := by
    rw [lengths]
    split <;> simp only [mem_reverse, mem_filter, mem_range, Nat.lt_succ_iff, decide_eq_true_eq]
  rw [hup, Fits]
  cases it.hi with
  | none =>
    grind
  | some h =>
    grind

end Item

def lit [BEq α] (s : List α) : List (Item α) := s.map fun c => Item.one (· == c)

/-- Match the sequence at the front of a text, with a condition on what is left after it. The answer has the text of each item. -/
def matchFront (ok : List α → Bool) : List (Item α) → List α → Option (List (List α) × List α)
  | [], s => if ok s then some ([], s) else none
  | it :: its, s =>
    (it.lengths s).findSome? fun k =>
      (matchFront ok its (s.drop k)).map fun m => (s.take k :: m.1, m.2)

/-- The leftmost place at which the sequence matches: what stands before it, the text of each item and what comes after. -/
def searchItems (its : List (Item α)) : List α → Option (List α × List (List α) × List α)
  | [] => (matchFront (fun _ => true) its []).map fun m => ([], m.1, m.2)
  | c :: s =>
    match matchFront (fun _ => true) its (c :: s) with
    | some m => some ([], m.1, m.2)
    | none => (searchItems its s).map fun m => (c :: m.1, m.2)

/-- A regular expression: its items, and for each of its groups the first item and the number of items. -/
structure Regex (α : Type*) where
  items : List (Item α)
  groups : List (Nat × Nat)

namespace Regex

def what (re : Regex α) (ts : List (List α)) : List (List α) :=
  ts.flatten :: re.groups.map fun g => ((ts.drop g.1).take g.2).flatten

def search (re : Regex α) (s : List α) : Option (List (List α)) :=
  (searchItems re.items s).map fun m => re.what m.2.1

def full (re : Regex α) (s : List α) : Option (List (List α)) :=
  (matchFront List.isEmpty re.items s).map fun m => re.what m.1

end Regex

variable {ok : List α → Bool} {it : Item α} {its : List (Item α)} {s rest pre : List α} {ts : List (List α)}

theorem matchFront_sound (hmatch : matchFront ok its s = some (ts, rest)) :
    s = ts.flatten ++ rest ∧ ok rest = true ∧ List.Forall₂ Item.Fits its ts := by
  induction its generalizing s ts with
  | nil =>
    rw [matchFront] at hmatch
    split at hmatch
    case isTrue hok =>
      obtain ⟨rfl, rfl⟩ : [] = ts ∧ s = rest := by simpa using hmatch
      exact ⟨rfl, hok, .nil⟩
    case isFalse => simp at hmatch
  | cons it its ih =>
    obtain ⟨k, hk, hnext⟩ := exists_of_findSome?_eq_some hmatch
    obtain ⟨⟨ts', rest'⟩, hits, heq⟩ := map_eq_some_iff.mp hnext
    obtain ⟨rfl, rfl⟩ : s.take k :: ts' = ts ∧ rest' = rest := by simpa using heq
    obtain ⟨hdrop, hok, hfits⟩ := ih hits
    refine ⟨?_, hok, .cons (Item.mem_lengths.mp hk).2 hfits⟩
    rw [flatten_cons, append_assoc, ← hdrop, take_append_drop]

theorem matchFront_complete (hnone : matchFront ok its s = none) (hs : s = ts.flatten ++ rest)
    (hok : ok rest = true) : ¬ List.Forall₂ Item.Fits its ts := by
  intro hfits
  induction hfits generalizing s with
  | nil => simp_all [matchFront]
  | @cons it t its ts hfit hfits ih =>
    have htake : s.take t.length = t := by simp [hs]
    have hk : t.length ∈ it.lengths s := by
      grind [Item.mem_lengths]
    have hdrop : s.drop t.length = ts.flatten ++ rest := by simp [hs]
    have hnext := findSome?_eq_none_iff.mp hnone _ hk
    rw [hdrop, map_eq_none_iff] at hnext
    exact ih hnext rfl

theorem searchItems_sound (hsearch : searchItems its s = some (pre, ts, rest)) :
    s = pre ++ (ts.flatten ++ rest) ∧ List.Forall₂ Item.Fits its ts := by
  induction s generalizing pre with
  | nil =>
    rw [searchItems] at hsearch
    obtain ⟨⟨ts', rest'⟩, hmatch, heq⟩ := map_eq_some_iff.mp hsearch
    grind [matchFront_sound]
  | cons c s ih =>
    rw [searchItems] at hsearch
    split at hsearch
    case h_1 m hmatch =>
      grind [matchFront_sound]
    case h_2 =>
      obtain ⟨⟨pre', ts', rest'⟩, hrest, heq⟩ := map_eq_some_iff.mp hsearch
      grind

theorem searchItems_complete (hnone : searchItems its s = none) (hs : s = pre ++ (ts.flatten ++ rest)) :
    ¬ List.Forall₂ Item.Fits its ts := by
  induction s generalizing pre with
  | nil =>
    rw [searchItems, map_eq_none_iff] at hnone
    obtain ⟨rfl, hempty⟩ := append_eq_nil_iff.mp hs.symm
    exact matchFront_complete hnone hempty.symm rfl
  | cons c s ih =>
    rw [searchItems] at hnone
    split at hnone
    case h_1 => simp at hnone
    case h_2 hfront =>
      cases pre with
      | nil => exact matchFront_complete hfront hs rfl
      | cons d pre =>
        rw [cons_append, cons.injEq] at hs
        exact ih (map_eq_none_iff.mp hnone) hs.2

theorem matchFront_greedy {t : List α} {m : List (List α) × List α} (hgreedy : it.greedy = true) (hhi : it.hi = none)
    (hcls : ∀ c ∈ t, it.cls c = true) (hlo : it.lo ≤ t.length) (hstop : ∀ c ∈ s.head?, it.cls c = false)
    (hrest : matchFront ok its s = some m) :
    matchFront ok (it :: its) (t ++ s) = some (t :: m.1, m.2) := by
  have hrun : (t ++ s).takeWhile it.cls = t := by
    rw [takeWhile_append_of_pos hcls]
    cases s with
    | nil => simp
    | cons c s => simp [hstop c (by simp)]
  have hfirst : it.lengths (t ++ s) = t.length :: ((range t.length).filter (it.lo ≤ ·)).reverse := by
    simp [Item.lengths, hgreedy, hhi, hrun, range_succ, filter_append, hlo]
  grind [matchFront]

theorem matchFront_longest {k : Nat} {m : List (List α) × List α} (hgreedy : it.greedy = true) (hk : k ∈ it.lengths s)
    (hrest : matchFront ok its (s.drop k) = some m)
    (hlonger : ∀ j ∈ it.lengths s, k < j → matchFront ok its (s.drop j) = none) :
    matchFront ok (it :: its) s = some (s.take k :: m.1, m.2) := by
  have hdecreasing : (it.lengths s).Pairwise (· > ·) := by
    rw [Item.lengths, if_pos hgreedy, pairwise_reverse]
    exact pairwise_lt_range.filter _
  obtain ⟨before, after, hsplit⟩ := append_of_mem hk
  rw [matchFront, findSome?_eq_some_iff]
  grind

theorem matchFront_one {p : α → Bool} {c : α} (hc : p c = true) :
    matchFront ok (Item.one p :: its) (c :: s) = (matchFront ok its s).map fun m => ([c] :: m.1, m.2) := by
  have hlengths : (Item.one p).lengths (c :: s) = [1] := by
    simp [Item.lengths, Item.one, hc, range_succ]
  grind [matchFront]

theorem matchFront_lit [BEq α] [LawfulBEq α] (t : List α) :
    matchFront ok (lit t ++ its) (t ++ s) = (matchFront ok its s).map fun m => (t.map (fun c => [c]) ++ m.1, m.2) := by
  induction t with
  | nil =>
    rw [lit, map_nil, nil_append, nil_append]
    exact Option.map_id'.symm
  | cons c t ih =>
    have hfirst := @matchFront_one _ ok (lit t ++ its) (t ++ s) (· == c) c (beq_self_eq_true c)
    rw [ih, Option.map_map] at hfirst
    exact hfirst

theorem matchFront_opt_absent {p : α → Bool} (hhead : ∀ c ∈ s.head?, p c = false) :
    matchFront ok (Item.opt p :: its) s = (matchFront ok its s).map fun m => ([] :: m.1, m.2) := by
  have hlengths : (Item.opt p).lengths s = [0] := by
    cases s with
    | nil => simp [Item.lengths, Item.opt]
    | cons c s => simp [Item.lengths, Item.opt, hhead c rfl]
  grind [matchFront]

variable {re : Regex α} {what : List (List α)}

theorem Regex.search_of_matchFront {m : List (List α) × List α}
    (hmatch : matchFront (fun _ => true) re.items s = some m) : re.search s = some (re.what m.1) := by
  cases s with
  | nil => rw [Regex.search, searchItems, hmatch]; rfl
  | cons c s => rw [Regex.search, searchItems, hmatch]; rfl

theorem Regex.fits_of_search (hsearch : re.search s = some what) {j k : Nat}
    (hgroup : re.groups[j]? = some (k, 1)) (hitem : re.items[k]? = some it) : it.Fits (what.getD (j + 1) []) := by
  obtain ⟨⟨pre, ts, rest⟩, hitems, rfl⟩ := map_eq_some_iff.mp hsearch
  obtain ⟨hlength, hfits⟩ := forall₂_iff_get.mp (searchItems_sound hitems).2
  obtain ⟨hk, rfl⟩ := List.getElem?_eq_some_iff.mp hitem
  have htext : (re.what ts).getD (j + 1) [] = ts[k] := by
    have hk' : k < ts.length := hlength ▸ hk
    have hdrop : (ts.drop k).take 1 = [ts[k]] := by rw [drop_eq_getElem_cons hk', take_succ_cons, take_zero]
    simp [Regex.what, hgroup, hdrop]
  rw [htext]
  exact hfits k hk (hlength ▸ hk)

theorem Regex.mem_of_search (hsearch : re.search s = some what) {i : Nat} {c : α}
    (hc : c ∈ what.getD i []) : c ∈ s := by
  obtain ⟨⟨pre, ts, rest⟩, hitems, rfl⟩ := map_eq_some_iff.mp hsearch
  have hflatten : c ∈ ts.flatten := by
    rw [getD_eq_getElem?_getD] at hc
    cases hi : (re.what ts)[i]? with
    | none => simp [hi] at hc
    | some w =>
      rw [hi, getD_some] at hc
      rcases mem_cons.mp (mem_of_getElem? hi) with rfl | hgroup
      · exact hc
      · obtain ⟨g, _, rfl⟩ := mem_map.mp hgroup
        obtain ⟨t, ht, hct⟩ := mem_flatten.mp hc
        exact mem_flatten.mpr ⟨t, mem_of_mem_drop (mem_of_mem_take ht), hct⟩
  rw [(searchItems_sound hitems).1]
  simp [hflatten]

end Pattern
