import Avbot.Http.Cookie

/-!
# Repeated cookies in the sum of two jars

`operator+` copies the sorted cookies of both jars one by one, and asks of each whether the jar made so far already has it. The cookie in the way is looked up by its key, but its value and date are taken from the first cookie of the same name.
-/

namespace Avbot.Http

open List

namespace Cookie

variable {a b e e' : Cookie} {ret before : List Cookie}

theorem sameKey_iff : a.sameKey b = true ↔ a.name = b.name ∧ a.domain = b.domain ∧ a.path = b.path := by
  simp [sameKey]

theorem sameKey_trans {c : Cookie} (hab : a.sameKey b = true) (hbc : b.sameKey c = true) : a.sameKey c = true := by
  obtain ⟨hname, hdomain, hpath⟩ := sameKey_iff.mp hab
  obtain ⟨hname', hdomain', hpath'⟩ := sameKey_iff.mp hbc
  exact sameKey_iff.mpr ⟨hname.trans hname', hdomain.trans hdomain', hpath.trans hpath'⟩

theorem sameKey_symm (h : a.sameKey b = true) : b.sameKey a = true := by
  obtain ⟨hname, hdomain, hpath⟩ := sameKey_iff.mp h
  exact sameKey_iff.mpr ⟨hname.symm, hdomain.symm, hpath.symm⟩

def survivors (before : List Cookie) : List Cookie → List Cookie
  | [] => []
  | e :: tmp =>
    if e.megerable before then e :: survivors (before ++ [e]) tmp else survivors (before ++ [e]) tmp

/-- `cookie_megerable` cannot tell the containers apart. -/
def LooksLike (ret before : List Cookie) : Prop :=
  (∀ e : Cookie, ret.any e.sameKey = before.any e.sameKey) ∧ ∀ name, findName name ret = findName name before

section

variable (h : LooksLike ret before)

include h

theorem LooksLike.megerable (e : Cookie) : e.megerable ret = e.megerable before := by
  unfold Cookie.megerable
  rw [h.1 e, h.2 e.name]

theorem LooksLike.append (e : Cookie) : LooksLike (ret ++ [e]) (before ++ [e]) := by
  constructor
  · intro e'
    rw [any_append, any_append, h.1 e']
  · intro name
    have hname := h.2 name
    simp only [findName, find?_append] at hname ⊢
    rw [hname]

theorem LooksLike.skip (he : e.megerable ret = false) : LooksLike ret (before ++ [e]) := by
  have hkey : before.any e.sameKey = true := by
    rw [← h.1 e]
    by_contra hnone
    rw [Cookie.megerable, Bool.eq_false_iff.mpr hnone] at he
    simp at he
  obtain ⟨x, hx, hex⟩ := any_eq_true.mp hkey
  constructor
  · intro e'
    rw [h.1 e', any_append, any_cons, any_nil, Bool.or_false]
    cases hsame : e'.sameKey e with
    | false => rw [Bool.or_false]
    | true =>
      rw [Bool.or_true]
      exact any_eq_true.mpr ⟨x, hx, sameKey_trans hsame hex⟩
  · intro name
    rw [h.2 name, findName, findName, find?_append]
    cases hfind : before.find? fun c => c.name = name with
    | some c => rfl
    | none =>
      have hne : e.name ≠ name := by
        intro heq
        have hxname := find?_eq_none.mp hfind x hx
        rw [← (sameKey_iff.mp hex).1, heq] at hxname
        simp at hxname
      simp [hne]

theorem mergeInto_eq (tmp : List Cookie) : mergeInto ret tmp = ret ++ survivors before tmp := by
  induction tmp generalizing ret before with
  | nil => simp [mergeInto, survivors]
  | cons e tmp ih =>
    rw [mergeInto, survivors, ← h.megerable e]
    cases he : e.megerable ret with
    | true => simp [ih (h.append e)]
    | false => simp [ih (h.skip he)]

end

theorem mergeInto_nil (tmp : List Cookie) : mergeInto [] tmp = survivors [] tmp :=
  mergeInto_eq ⟨fun _ => rfl, fun _ => rfl⟩ tmp

theorem mem_survivors_iff {tmp : List Cookie} {x : Cookie} :
    x ∈ survivors before tmp ↔
      ∃ mid post, tmp = mid ++ x :: post ∧ x.megerable (before ++ mid) = true := by
  induction tmp generalizing before with
  | nil => simp [survivors]
  | cons e tmp ih =>
    have hsplit : (∃ mid post, e :: tmp = mid ++ x :: post ∧ x.megerable (before ++ mid) = true) ↔
        (e = x ∧ e.megerable before = true) ∨
          ∃ mid post, tmp = mid ++ x :: post ∧ x.megerable (before ++ [e] ++ mid) = true := by
      constructor
      · rintro ⟨mid, post, hmid, hx⟩
        cases mid with
        | nil =>
          obtain ⟨rfl, -⟩ := cons.inj hmid
          exact .inl ⟨rfl, by simpa using hx⟩
        | cons y mid =>
          obtain ⟨rfl, hrest⟩ := cons.inj hmid
          exact .inr ⟨mid, post, hrest, by simpa using hx⟩
      · rintro (⟨rfl, hx⟩ | ⟨mid, post, rfl, hx⟩)
        · exact ⟨[], tmp, rfl, by simpa using hx⟩
        · exact ⟨e :: mid, post, rfl, by simpa using hx⟩
    rw [hsplit, survivors, ← ih]
    cases he : e.megerable before with
    | true => simp [eq_comm]
    | false => simp

/-- The test that a cookie passes although its key is there already: the first cookie of its name has no value, or it expires before. -/
def Passes (l : List Cookie) (e : Cookie) : Prop :=
  ∀ first, findName e.name l = some first → first.value = [] ∨ ptimeLt first.expires e.expires = true

/-- Somewhere in the list there is a cookie with a value that is the first of its key or passes the test, and later one with the same key that passes it. -/
def Repeats (l : List Cookie) : Prop :=
  ∃ before e after, l = before ++ e :: after ∧ e.value ≠ [] ∧ (before.any e.sameKey = false ∨ Passes l e) ∧
    ∃ e' ∈ after, e'.value ≠ [] ∧ e.sameKey e' = true ∧ Passes l e'

theorem findName_append_of_any (h : before.any e.sameKey = true) (after : List Cookie) :
    findName e.name (before ++ after) = findName e.name before := by
  obtain ⟨x, hx, hex⟩ := any_eq_true.mp h
  have hsome : (findName e.name before).isSome = true :=
    find?_isSome.mpr ⟨x, hx, by simp [(sameKey_iff.mp hex).1]⟩
  rw [findName, findName, find?_append, ← findName]
  obtain ⟨y, hy⟩ := Option.isSome_iff_exists.mp hsome
  rw [hy]
  rfl

theorem megerable_iff (after : List Cookie) (hvalue : e.value ≠ []) :
    e.megerable before = true ↔ before.any e.sameKey = false ∨ Passes (before ++ e :: after) e := by
  unfold megerable
  cases hkey : before.any e.sameKey with
  | false => simp
  | true =>
    rw [Passes, findName_append_of_any hkey]
    cases hfind : findName e.name before with
    | none => simp [hvalue]
    | some first => simp [hvalue]

theorem any_sameKey_of_mem (he : e ∈ before) (hsame : e.sameKey e' = true) : before.any e'.sameKey = true :=
  any_eq_true.mpr ⟨e, he, sameKey_symm hsame⟩

theorem mem_survivors_of_sameKey {l : List Cookie} (hvalue : e'.value ≠ []) (hsame : e.sameKey e' = true) :
    e' ∈ survivors (before ++ [e]) l ↔ e' ∈ l ∧ Passes (before ++ e :: l) e' := by
  have hkey : ∀ mid, (before ++ [e] ++ mid).any e'.sameKey = true := fun mid =>
    any_sameKey_of_mem (by simp) hsame
  rw [mem_survivors_iff]
  constructor
  · rintro ⟨mid, post, rfl, hcopied⟩
    refine ⟨by simp, ?_⟩
    rcases (megerable_iff post hvalue).mp hcopied with hfirst | hpasses
    · rw [hkey mid] at hfirst
      simp at hfirst
    · simpa using hpasses
  · rintro ⟨hmem, hpasses⟩
    obtain ⟨mid, post, rfl⟩ := append_of_mem hmem
    refine ⟨mid, post, rfl, (megerable_iff post hvalue).mpr (.inr ?_)⟩
    simpa using hpasses

/-- No cookie with a value that is copied from `l`, after `before`, has a later one of its key that is copied too. -/
def CopiesOnce (before l : List Cookie) : Prop :=
  ∀ mid e after, l = mid ++ e :: after → e.value ≠ [] → e.megerable (before ++ mid) = true →
    ∀ e' ∈ after, e'.value ≠ [] → e.sameKey e' = true → ¬ Passes (before ++ l) e'

theorem copiesOnce_cons (before : List Cookie) (e : Cookie) (l : List Cookie) :
    CopiesOnce before (e :: l) ↔
      (e.value ≠ [] → e.megerable before = true →
        ∀ e' ∈ l, e'.value ≠ [] → e.sameKey e' = true → ¬ Passes (before ++ e :: l) e') ∧
      CopiesOnce (before ++ [e]) l := by
  constructor
  · intro h
    refine ⟨fun hvalue hcopied => h [] e l rfl hvalue (by simpa using hcopied), ?_⟩
    intro mid f after hl hvalue hcopied
    simpa using h (e :: mid) f after (by rw [hl]; rfl) hvalue (by simpa using hcopied)
  · rintro ⟨hfirst, hrest⟩ mid f after hl hvalue hcopied
    cases mid with
    | nil =>
      obtain ⟨rfl, rfl⟩ := cons.inj hl
      exact hfirst hvalue (by simpa using hcopied)
    | cons y mid =>
      obtain ⟨rfl, htail⟩ := cons.inj hl
      simpa using hrest mid f after htail hvalue (by simpa using hcopied)

theorem forall_survivors_iff (before : List Cookie) (e : Cookie) (l : List Cookie) :
    (∀ x ∈ (survivors (before ++ [e]) l).filter (fun c => c.value ≠ []), e.sameKey x = false) ↔
      ∀ e' ∈ l, e'.value ≠ [] → e.sameKey e' = true → ¬ Passes (before ++ e :: l) e' := by
  constructor
  · intro h e' he' hvalue hsame hpasses
    have hcopied := (mem_survivors_of_sameKey hvalue hsame).mpr ⟨he', hpasses⟩
    have hdiffer := h e' (mem_filter.mpr ⟨hcopied, by simpa using hvalue⟩)
    rw [hsame] at hdiffer
    simp at hdiffer
  · intro h x hx
    obtain ⟨hcopied, hvalue⟩ := mem_filter.mp hx
    have hvalue : x.value ≠ [] := by simpa using hvalue
    apply Bool.eq_false_iff.mpr
    intro hsame
    obtain ⟨hmem, hpasses⟩ := (mem_survivors_of_sameKey hvalue hsame).mp hcopied
    exact h x hmem hvalue hsame hpasses

theorem pairwise_survivors_iff (before l : List Cookie) :
    ((survivors before l).filter fun c => c.value ≠ []).Pairwise (fun c d => c.sameKey d = false) ↔
      CopiesOnce before l := by
  induction l generalizing before with
  | nil => simp [survivors, CopiesOnce]
  | cons e l ih =>
    rw [copiesOnce_cons, ← ih (before ++ [e]), survivors]
    cases hcopied : e.megerable before with
    | false => simp
    | true =>
      by_cases hvalue : e.value = []
      · simp [hvalue]
      · rw [if_pos rfl, filter_cons_of_pos (by simpa using hvalue), pairwise_cons, forall_survivors_iff]
        simp [hvalue]

theorem copiesOnce_iff (l : List Cookie) : CopiesOnce [] l ↔ ¬ Repeats l := by
  constructor
  · rintro h ⟨before, e, after, rfl, hvalue, hcopied, e', he', hvalue', hsame, hpasses⟩
    exact h before e after rfl hvalue ((megerable_iff after hvalue).mpr hcopied) e' he' hvalue' hsame hpasses
  · intro h mid e after hl hvalue hcopied e' he' hvalue' hsame hpasses
    subst hl
    exact h ⟨mid, e, after, rfl, hvalue, (megerable_iff after hvalue).mp hcopied, e', he', hvalue', hsame, hpasses⟩

end Cookie

namespace CookieLib

variable (lib : CookieLib)

theorem pairwise_add_iff (a b : Cookies) :
    ((lib.add a b).cookies.filter fun c => c.value ≠ []).Pairwise (fun c d => c.sameKey d = false) ↔
      ¬ Cookie.Repeats (lib.sort (a.cookies ++ b.cookies)) := by
  rw [add, Cookie.mergeInto_nil, Cookie.pairwise_survivors_iff, Cookie.copiesOnce_iff]

/-- The sum of two jars has each cookie with a value at most once exactly when none repeats in the order in which the sort leaves the cookies of both. -/
theorem add_unique_iff (a b : Cookies) :
    (((lib.add a b).cookies.filter fun c => c.value ≠ []).Pairwise (fun c d => c.sameKey d = false) ↔
        ¬ Cookie.Repeats (lib.sort (a.cookies ++ b.cookies))) ∧
      ∀ (jar : Cookies) (https : Bool) (now : Int) (domain path : Str), ¬ Cookie.Repeats (lib.sort jar.cookies) →
        (lib.selected jar https now domain path).Pairwise fun c d => c.sameKey d = false := by
  refine ⟨lib.pairwise_add_iff a b, ?_⟩
  intro jar https now domain path hjar
  have hpairwise := (lib.pairwise_add_iff ⟨[], []⟩ jar).mpr hjar
  refine List.Pairwise.sublist ?_ hpairwise
  unfold selected
  apply monotone_filter_right
  intro c hc
  simp [Cookie.live] at hc ⊢
  exact hc.1.1.1

/-- A cookie without a value for one domain, and two different values for another. -/
theorem two_values_in_sum :
    let lib := byInsertion (fun _ => none) (fun _ _ => true)
    let a : Cookies := ⟨[⟨"n".toList, [], "d".toList, "/".toList, none, false, false⟩], []⟩
    let x : Cookie := ⟨"n".toList, "x".toList, "e".toList, "/".toList, none, false, false⟩
    let b : Cookies := ⟨[x, { x with value := "y".toList }], []⟩
    ((lib.add a b).cookies.filter fun c => c.value ≠ []) = [x, { x with value := "y".toList }] ∧
      x.sameKey { x with value := "y".toList } = true ∧
      lib.getCookieLine ⟨a.cookies ++ b.cookies, []⟩ false 0 [] [] = "n=x; n=y".toList := by
  decide +kernel

end CookieLib

end Avbot.Http
