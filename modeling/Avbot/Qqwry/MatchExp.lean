import Avbot.Base.MachineInt
import Avbot.Lib.Wildcard
import Avbot.Qqwry.Ipdb
import Mathlib.Data.List.TakeWhile

/-!
# Wildcards

`match_exp` compares up to the first star, then looks for one segment of the pattern after the other, each at the first place where it fits, and at last compares the last segment with the end of the string. Its indices are `unsigned`, and one of them is an `int`.
-/

namespace Avbot.Qqwry

open List Fallible Wildcard Nat

/-! ### The loops -/

def incUnsigned (j : Nat) : Except Fault Nat := .ok ((j + 1) % 4294967296)

def incInt (j : Nat) : Except Fault Nat := if j + 1 < intLimit then .ok (j + 1) else .error .overflow

def advanceWhile (inc : Nat → Except Fault Nat) (good : Char → Bool) (a : Str) : Nat → Nat → Except Fault Nat
  | 0, _ => .error .unfinished
  | fuel + 1, j => do
    let c ← charAt a j
    if c ≠ '\x00' ∧ good c then
      let j ← inc j
      advanceWhile inc good a fuel j
    else return j

/-- `for (; exp[j] && exp[j] == '*';) j++;` -/
def skipStars (inc : Nat → Except Fault Nat) : Str → Nat → Nat → Except Fault Nat := advanceWhile inc (· = '*')

/-- `for (jt = j; exp[jt] != 0 && exp[jt] != '*';) jt++;` -/
def segmentEnd : Str → Nat → Nat → Except Fault Nat := advanceWhile incUnsigned (· ≠ '*')

/-- The loop up to the first star. With `none` the answer is `false`. -/
def matchFront (str exp : Str) : Nat → Nat → Nat → Except Fault (Option (Nat × Nat))
  | 0, _, _ => .error .unfinished
  | fuel + 1, i, j => do
    let c ← charAt str i
    if c = '\x00' then return some (i, j)
    let e ← charAt exp j
    if e = '\x00' ∨ e = '*' then return some (i, j)
    if e ≠ '?' ∧ c ≠ e then return none
    let i ← incUnsigned i
    let j ← incUnsigned j
    matchFront str exp fuel i j

def searchInner (str cstr : Str) : Nat → Nat → Nat → Except Fault (Nat × Nat)
  | 0, _, _ => .error .unfinished
  | fuel + 1, it, j => do
    if str.length ≤ j then return (it, j)
    let c ← charAt cstr it
    if c = '\x00' then return (it, j)
    let e ← charAt str j
    if e = '?' ∨ c = e then
      let it ← incUnsigned it
      searchInner str cstr fuel it (j + 1)
    else return (it, j)

/-- The outer loop of `searchMatch`, with `i` and `it` as it leaves them. -/
def searchOuter (fuel : Nat) (str cstr : Str) : Nat → Nat → Except Fault (Option (Nat × Nat))
  | 0, _ => .error .unfinished
  | rounds + 1, si => do
    let c ← charAt cstr si
    if c = '\x00' then return none
    let (it, j) ← searchInner str cstr fuel (si % 4294967296) 0
    if str.length ≤ j then return some (si % 4294967296, it)
    else searchOuter fuel str cstr rounds (si + 1)

def searchMatch (fuel i : Nat) (str cstr : Str) : Except Fault (Option (Nat × Nat)) := searchOuter fuel str cstr fuel i

/-- The loop over the segments, with `j` and `lastSubstr` as it leaves them. With `none` the answer is `false`. -/
def matchSegments (fuel : Nat) (str exp : Str) : Nat → Nat → Nat → Nat → Str → Except Fault (Option (Nat × Str))
  | 0, _, _, _, _ => .error .unfinished
  | rounds + 1, i, j, jt, lastSubstr => do
    let e ← charAt exp jt
    if e = '\x00' then return some (j, lastSubstr)
    let j ← skipStars incUnsigned exp fuel j
    let e ← charAt exp j
    if e = '\x00' then return some (j, lastSubstr)
    let jt ← segmentEnd exp fuel j
    let tmp := (exp.drop j).take (jt - j)
    match ← searchMatch fuel i tmp str with
    | none => return none
    | some (_, it) => matchSegments fuel str exp rounds it jt jt tmp

def matchLast (str lastSubstr : Str) : Nat → Nat → Nat → Except Fault Bool
  | 0, _, _ => .error .unfinished
  | fuel + 1, i, j => do
    if lastSubstr.length ≤ j then return true
    let e ← charAt lastSubstr j
    if e = '?' then
      let i ← incUnsigned i
      let j ← incUnsigned j
      matchLast str lastSubstr fuel i j
    else
      let c ← charAt str i
      if c ≠ e then return false
      let i ← incUnsigned i
      let j ← incUnsigned j
      matchLast str lastSubstr fuel i j

def strlen (a : Str) : Except Fault Nat :=
  if '\x00' ∈ a then .ok (a.takeWhile (· ≠ '\x00')).length else .error .outside

def matchEnd (fuel : Nat) (str exp : Str) : Option (Nat × Str) → Except Fault Bool
  | none => .ok false
  | some (j, lastSubstr) => do
    let e ← charAt exp ((j + 4294967296 - 1) % 4294967296)
    if e = '*' then return true
    let length ← strlen str
    matchLast str lastSubstr fuel ((length + 2 ^ 64 - lastSubstr.length) % 4294967296) 0

def matchRest (fuel : Nat) (str exp : Str) : Option (Nat × Nat) → Except Fault Bool
  | none => .ok false
  | some (i, j) => do
    let c ← charAt str i
    if c = '\x00' then
      let j ← skipStars incUnsigned exp fuel j
      let e ← charAt exp j
      return e = '\x00'
    let e ← charAt exp j
    if e = '\x00' then return false
    let found ← matchSegments fuel str exp fuel i j j []
    matchEnd fuel str exp found

def matchExp (fuel : Nat) (str exp : Str) : Except Fault Bool := do
  let c ← charAt str 0
  if c = '\x00' then
    let j ← skipStars incInt exp fuel 0
    let e ← charAt exp j
    return e = '\x00'
  let e ← charAt exp 0
  if e = '\x00' then return false
  let front ← matchFront str exp fuel 0 0
  matchRest fuel str exp front

/-! ### The pattern -/

structure CString where
  text : Str
  noZero : ∀ c ∈ text, c ≠ '\x00'

def CString.array (s : CString) : Str := s.text ++ ['\x00']

def token (c : Char) : Token Char :=
  if c = '*' then .star
  else if c = '?' then .any
  else .elem c

def WildcardMatch (str exp : Str) : Prop := Matches (exp.map token) str

instance (str exp : Str) : Decidable (WildcardMatch str exp) := inferInstanceAs (Decidable (Matches (exp.map token) str))

theorem token_star : token '*' = .star := rfl

variable {c d : Char} {t s e b a s₁ s₂ : Str} {fuel : Nat}

theorem token_ne_star (hc : c ≠ '*') : token c ≠ .star := by
  rw [token, if_neg hc]
  split <;> simp

theorem accepts_token (hd : d ≠ '*') : (token d).Accepts c ↔ d = '?' ∨ c = d := by
  rw [token, if_neg hd]
  by_cases hany : d = '?'
  · simp [hany, Token.Accepts]
  · simp [hany, Token.Accepts, eq_comm]

theorem star_notMem_map (ht : ∀ c ∈ t, c ≠ '*') : Token.star ∉ t.map token := by
  intro hmem
  obtain ⟨c, hc, heq⟩ := mem_map.mp hmem
  exact token_ne_star (ht c hc) heq

theorem wildcardMatch_cons (hd : d ≠ '*') :
    WildcardMatch (c :: s) (d :: e) ↔ (d = '?' ∨ c = d) ∧ WildcardMatch s e := by
  have hseg : Token.star ∉ [token d] := by simpa using (token_ne_star hd).symm
  have happend := matches_append_iff (p := e.map token) (s := c :: s) hseg
  simpa [WildcardMatch, Fits, accepts_token hd] using happend

theorem wildcardMatch_nil_left (hd : d ≠ '*') : ¬ WildcardMatch [] (d :: e) := by
  have hseg : Token.star ∉ [token d] := by simpa using (token_ne_star hd).symm
  have happend := matches_append_iff (p := e.map token) (s := []) hseg
  simpa [WildcardMatch, Fits] using happend

theorem wildcardMatch_nil_iff (e : Str) : WildcardMatch [] e ↔ e.dropWhile (· = '*') = [] := by
  induction e with
  | nil => simp [WildcardMatch, Matches]
  | cons d e ih =>
    by_cases hd : d = '*'
    · subst hd
      rw [dropWhile_cons_of_pos (by simp), ← ih]
      simp [WildcardMatch, token_star, matches_star_iff]
    · simp [hd, wildcardMatch_nil_left hd]

theorem fits_cons (hd : d ≠ '*') : Fits ((d :: t).map token) (c :: s) ↔ (d = '?' ∨ c = d) ∧ Fits (t.map token) s := by
  rw [map_cons, Fits, accepts_token hd]

/-! ### What the loops do -/

theorem charAt_append (a b : Str) : charAt (a ++ b) a.length = charAt b 0 := by
  rw [charAt, charAt, getElem?_append_right (le_refl _), Nat.sub_self]

theorem charAt_mid (a b : Str) (c : Char) : charAt (a ++ c :: b ++ ['\x00']) a.length = .ok c := by
  rw [append_assoc, charAt_append]
  rfl

theorem charAt_end (a : Str) : charAt (a ++ [] ++ ['\x00']) a.length = .ok '\x00' := by
  rw [append_assoc, charAt_append]
  rfl

theorem charAt_ne_zero (hb : ∀ c ∈ b, c ≠ '\x00') (hne : b ≠ []) (a : Str) :
    ∃ c, charAt (a ++ b ++ ['\x00']) a.length = .ok c ∧ c ≠ '\x00' := by
  obtain ⟨c, b, rfl⟩ := exists_cons_of_ne_nil hne
  exact ⟨c, charAt_mid a b c, hb c mem_cons_self⟩

theorem incUnsigned_eq {j : Nat} (hj : j + 1 < 4294967296) : incUnsigned j = .ok (j + 1) := by
  rw [incUnsigned, mod_eq_of_lt hj]

theorem incUnsigned_length (hlen : (a ++ c :: b).length < 4294967296) :
    incUnsigned a.length = .ok (a ++ [c]).length := by
  rw [length_append, length_cons] at hlen
  rw [incUnsigned_eq (by omega), length_append, length_singleton]

theorem advanceWhile_eq {inc : Nat → Except Fault Nat} {good : Char → Bool} (hb : ∀ c ∈ b, c ≠ '\x00')
    (hinc : ∀ j < a.length + (b.takeWhile good).length, inc j = .ok (j + 1)) (hfuel : b.length < fuel) :
    advanceWhile inc good (a ++ b ++ ['\x00']) fuel a.length = .ok (a.length + (b.takeWhile good).length) := by
  induction b generalizing a fuel with
  | nil =>
    obtain ⟨fuel, rfl⟩ := Nat.exists_eq_add_of_lt hfuel
    rw [advanceWhile, charAt_end]
    rfl
  | cons c b ih =>
    obtain _ | fuel := fuel
    · cases hfuel
    have hc := hb c mem_cons_self
    rw [advanceWhile, charAt_mid, ok_bind]
    by_cases hgood : good c = true
    · rw [takeWhile_cons_of_pos hgood, length_cons] at hinc ⊢
      rw [if_pos ⟨hc, hgood⟩, hinc _ (by omega), ok_bind]
      have hrest := ih (a := a ++ [c]) (fun d hd => hb d (mem_cons_of_mem c hd))
        (fun j hj => hinc j (by rw [length_append, length_singleton] at hj; omega))
        (lt_of_succ_lt_succ hfuel)
      rw [length_append, length_singleton, append_assoc a, singleton_append] at hrest
      rw [hrest]
      congr 1
      omega
    · rw [takeWhile_cons_of_neg hgood, if_neg fun h => hgood h.2]
      rfl

/-- How the comparison up to the first star can end, between the parts of the strings that are still to come. -/
inductive FrontResult (s₁ s₂ e₁ e₂ : Str) : Option (Nat × Nat) → Prop where
  | differs (hno : ¬ WildcardMatch s₂ e₂) : FrontResult s₁ s₂ e₁ e₂ none
  | stops {u s₃ v e₃ : Str} (hs : s₂ = u ++ s₃) (he : e₂ = v ++ e₃) (hiff : WildcardMatch s₂ e₂ ↔ WildcardMatch s₃ e₃)
      (hend : s₃ = [] ∨ e₃ = [] ∨ ∃ e₄, e₃ = '*' :: e₄) :
      FrontResult s₁ s₂ e₁ e₂ (some ((s₁ ++ u).length, (e₁ ++ v).length))

theorem FrontResult.here {e₁ e₂ : Str} (hend : s₂ = [] ∨ e₂ = [] ∨ ∃ e₄, e₂ = '*' :: e₄) :
    FrontResult s₁ s₂ e₁ e₂ (some (s₁.length, e₁.length)) := by
  have hstop : FrontResult s₁ s₂ e₁ e₂ (some ((s₁ ++ []).length, (e₁ ++ []).length)) := .stops rfl rfl Iff.rfl hend
  rwa [append_nil, append_nil] at hstop

theorem FrontResult.cons {s₁ s₂ e₁ e₂ : Str} {c d : Char} (hd : d ≠ '*') (haccept : d = '?' ∨ c = d)
    {r : Option (Nat × Nat)} (hr : FrontResult (s₁ ++ [c]) s₂ (e₁ ++ [d]) e₂ r) :
    FrontResult s₁ (c :: s₂) e₁ (d :: e₂) r := by
  have hstep : WildcardMatch (c :: s₂) (d :: e₂) ↔ WildcardMatch s₂ e₂ := by
    rw [wildcardMatch_cons hd, and_iff_right haccept]
  cases hr with
  | differs hno => exact .differs (mt hstep.mp hno)
  | @stops u s₃ v e₃ hs he hiff hend =>
    have hstop : FrontResult s₁ (c :: s₂) e₁ (d :: e₂) (some ((s₁ ++ c :: u).length, (e₁ ++ d :: v).length)) :=
      .stops (congrArg (c :: ·) hs) (congrArg (d :: ·) he) (hstep.trans hiff) hend
    rwa [append_cons s₁, append_cons e₁] at hstop

theorem matchFront_spec {s₁ s₂ e₁ e₂ : Str} (hs : ∀ c ∈ s₂, c ≠ '\x00') (he : ∀ c ∈ e₂, c ≠ '\x00')
    (hslen : (s₁ ++ s₂).length < 4294967296) (helen : (e₁ ++ e₂).length < 4294967296) {fuel : Nat}
    (hfuel : s₂.length < fuel) :
    ∃ r, matchFront (s₁ ++ s₂ ++ ['\x00']) (e₁ ++ e₂ ++ ['\x00']) fuel s₁.length e₁.length = .ok r ∧
      FrontResult s₁ s₂ e₁ e₂ r := by
  induction s₂ generalizing s₁ e₁ e₂ fuel with
  | nil =>
    obtain _ | fuel := fuel
    · cases hfuel
    refine ⟨_, ?_, .here (.inl rfl)⟩
    rw [matchFront, charAt_end]
    rfl
  | cons c s₂ ih =>
    obtain _ | fuel := fuel
    · cases hfuel
    have hc := hs c mem_cons_self
    rw [matchFront, charAt_mid, ok_bind, if_neg hc]
    cases e₂ with
    | nil =>
      refine ⟨_, ?_, .here (.inr (.inl rfl))⟩
      rw [charAt_end]
      rfl
    | cons d e₂ =>
      have hd := he d mem_cons_self
      rw [charAt_mid, ok_bind]
      by_cases hstar : d = '*'
      · refine ⟨_, ?_, .here (.inr (.inr ⟨e₂, by rw [hstar]⟩))⟩
        rw [if_pos (.inr hstar)]
        rfl
      rw [if_neg (by simp [hd, hstar])]
      by_cases haccept : d = '?' ∨ c = d
      · rw [if_neg (mt not_or.mpr (not_not.mpr haccept)), incUnsigned_length hslen, incUnsigned_length helen, ok_bind,
          ok_bind]
        rw [append_cons s₁ c s₂] at hslen ⊢
        rw [append_cons e₁ d e₂] at helen ⊢
        obtain ⟨r, hr, hresult⟩ := ih (fun a ha => hs a (mem_cons_of_mem c ha))
          (fun a ha => he a (mem_cons_of_mem d ha)) hslen helen (lt_of_succ_lt_succ hfuel)
        exact ⟨r, hr, hresult.cons hstar haccept⟩
      · refine ⟨none, ?_, .differs fun hmatch => haccept ((wildcardMatch_cons hstar).mp hmatch).1⟩
        rw [if_pos (not_or.mp haccept)]
        rfl

/-! ### Searching a segment -/

theorem searchInner_spec {s₁ s₂ t₁ t₂ : Str} (hs : ∀ c ∈ s₂, c ≠ '\x00') (ht : ∀ c ∈ t₂, c ≠ '*')
    (hlen : (s₁ ++ s₂).length < 4294967296) {fuel : Nat} (hfuel : t₂.length < fuel) :
    ∃ m ≤ t₂.length,
      searchInner (t₁ ++ t₂) (s₁ ++ s₂ ++ ['\x00']) fuel s₁.length t₁.length = .ok (s₁.length + m, t₁.length + m) ∧
        (m = t₂.length ↔ Fits (t₂.map token) s₂) := by
  induction t₂ generalizing s₁ s₂ t₁ fuel with
  | nil =>
    obtain _ | fuel := fuel
    · cases hfuel
    refine ⟨0, le_refl _, ?_, by simp [Fits]⟩
    rw [searchInner, if_pos (by simp)]
    rfl
  | cons d t₂ ih =>
    obtain _ | fuel := fuel
    · cases hfuel
    have hd := ht d mem_cons_self
    rw [searchInner, if_neg (by simp)]
    cases s₂ with
    | nil =>
      refine ⟨0, zero_le _, ?_, by simp [Fits]⟩
      rw [charAt_end]
      rfl
    | cons c s₂ =>
      have hc := hs c mem_cons_self
      rw [charAt_mid, ok_bind, if_neg hc, charAt_append]
      change ∃ m ≤ _, (if d = '?' ∨ c = d then _ else _) = _ ∧ _
      by_cases haccept : d = '?' ∨ c = d
      · rw [if_pos haccept, incUnsigned_length hlen, ok_bind]
        rw [append_cons s₁ c s₂] at hlen ⊢
        obtain ⟨m, hle, hm, hiff⟩ := @ih _ _ (t₁ ++ [d]) (fun a ha => hs a (mem_cons_of_mem c ha))
          (fun a ha => ht a (mem_cons_of_mem d ha)) hlen fuel (lt_of_succ_lt_succ hfuel)
        refine ⟨m + 1, succ_le_succ hle, ?_, ?_⟩
        · rw [← append_cons t₁ d t₂] at hm
          simpa only [length_append, length_singleton, add_assoc, add_comm 1 m] using hm
        · rw [length_cons, succ_inj, hiff, fits_cons hd, and_iff_right haccept]
      · refine ⟨0, zero_le _, ?_, ?_⟩
        · rw [if_neg haccept]
          rfl
        · exact iff_of_false (by simp) fun hfits => haccept ((fits_cons hd).mp hfits).1

theorem searchOuter_spec (hs : ∀ c ∈ s₂, c ≠ '\x00') (ht : ∀ c ∈ t, c ≠ '*') (hne : t ≠ [])
    (hlen : (s₁ ++ s₂).length < 4294967296) (hfuel : t.length < fuel) {rounds : Nat}
    (hrounds : s₂.length < rounds) :
    (searchOuter fuel t (s₁ ++ s₂ ++ ['\x00']) rounds s₁.length = .ok none ∧ ∀ m, ¬ Fits (t.map token) (s₂.drop m)) ∨
      ∃ m, searchOuter fuel t (s₁ ++ s₂ ++ ['\x00']) rounds s₁.length =
          .ok (some (s₁.length + m, s₁.length + m + t.length)) ∧
        Fits (t.map token) (s₂.drop m) ∧ ∀ m' < m, ¬ Fits (t.map token) (s₂.drop m') := by
  have hnil : ¬ Fits (t.map token) [] := by
    obtain ⟨d, t, rfl⟩ := exists_cons_of_ne_nil hne
    simp [Fits]
  induction s₂ generalizing s₁ rounds with
  | nil =>
    obtain _ | rounds := rounds
    · cases hrounds
    refine .inl ⟨?_, fun m => by rwa [drop_nil]⟩
    rw [searchOuter, charAt_end]
    rfl
  | cons c s₂ ih =>
    obtain _ | rounds := rounds
    · cases hrounds
    have hc := hs c mem_cons_self
    have hsmall : s₁.length % 4294967296 = s₁.length := by
      rw [length_append] at hlen
      exact mod_eq_of_lt (by omega)
    obtain ⟨m, hle, hm, hiff⟩ := @searchInner_spec _ _ [] _ hs ht hlen _ hfuel
    rw [nil_append, length_nil, zero_add] at hm
    rw [searchOuter, charAt_mid, ok_bind, if_neg hc, hsmall, hm, ok_bind]
    by_cases hfits : Fits (t.map token) (c :: s₂)
    · obtain rfl := hiff.mpr hfits
      refine .inr ⟨0, ?_, hfits, by simp⟩
      dsimp only
      rw [if_pos (le_refl _)]
      rfl
    · have hlt : ¬ t.length ≤ m := by
        have := mt hiff.mp hfits
        omega
      dsimp only
      rw [if_neg hlt]
      rw [append_cons s₁ c s₂] at hlen ⊢
      have hrest := @ih (s₁ ++ [c]) (fun a ha => hs a (mem_cons_of_mem c ha)) hlen rounds
        (lt_of_succ_lt_succ hrounds)
      rw [show (s₁ ++ [c]).length = s₁.length + 1 by simp] at hrest
      rcases hrest with ⟨hnone, hall⟩ | ⟨m', hfound, hfits', hfirst⟩
      · refine .inl ⟨hnone, fun k => ?_⟩
        cases k with
        | zero => exact hfits
        | succ k => exact hall k
      · refine .inr ⟨m' + 1, ?_, hfits', fun k hk => ?_⟩
        · rw [hfound]
          simp only [add_assoc, add_comm 1]
        · cases k with
          | zero => exact hfits
          | succ k => exact hfirst k (lt_of_succ_lt_succ hk)

/-- How the search for the segments can end, where `P` is the answer. -/
inductive SegmentsResult (s e : Str) (P : Prop) : Option (Nat × Str) → Prop where
  | missing (hno : ¬ P) : SegmentsResult s e P none
  | starred {front lastSubstr : Str} (he : e = front ++ ['*']) (hyes : P) : SegmentsResult s e P (some (e.length, lastSubstr))
  | ended {front t : Str} (he : e = front ++ t) (hne : t ≠ []) (ht : ∀ c ∈ t, c ≠ '*') (hle : t.length ≤ s.length)
      (hiff : P ↔ Fits (t.map token) (s.drop (s.length - t.length))) : SegmentsResult s e P (some (e.length, t))

theorem matches_dropWhile_iff (e s : Str) :
    Matches (.star :: e.map token) s ↔ Matches (.star :: (e.dropWhile (· = '*')).map token) s := by
  induction e with
  | nil => rfl
  | cons d e ih =>
    by_cases hd : d = '*'
    · rw [dropWhile_cons_of_pos (by simpa using hd), ← ih, hd, map_cons, token_star, matches_star_star]
    · rw [dropWhile_cons_of_neg (by simpa using hd)]

structure Cut (e stars t rest : Str) : Prop where
  eq : e = stars ++ (t ++ rest)
  stars_eq : e.takeWhile (· = '*') = stars
  drop_eq : e.dropWhile (· = '*') = t ++ rest
  segment_eq : (t ++ rest).takeWhile (· ≠ '*') = t
  ne_nil : t ≠ []
  noStar : ∀ c ∈ t, c ≠ '*'
  rest_eq : rest = [] ∨ ∃ e', rest = '*' :: e'

theorem exists_cut (he : e.dropWhile (· = '*') ≠ []) : ∃ stars t rest, Cut e stars t rest := by
  have happend := takeWhile_append_dropWhile (p := fun c => decide (c ≠ '*')) (l := e.dropWhile (· = '*'))
  refine ⟨e.takeWhile (· = '*'), (e.dropWhile (· = '*')).takeWhile (· ≠ '*'), (e.dropWhile (· = '*')).dropWhile (· ≠ '*'),
    ?_, rfl, happend.symm, by rw [happend], ?_, ?_, ?_⟩
  · rw [happend, takeWhile_append_dropWhile]
  · have hhead := head_dropWhile_not (fun c => decide (c = '*')) he
    obtain ⟨d, l, hl⟩ := exists_cons_of_ne_nil he
    simp only [hl, head_cons] at hhead
    rw [hl, takeWhile_cons_of_pos (by simpa using hhead)]
    exact cons_ne_nil _ _
  · intro c hc
    simpa using mem_takeWhile_imp hc
  · by_cases hrest : (e.dropWhile (· = '*')).dropWhile (· ≠ '*') = []
    · exact .inl hrest
    · have hhead := head_dropWhile_not (fun c => decide (c ≠ '*')) hrest
      obtain ⟨d, l, hl⟩ := exists_cons_of_ne_nil hrest
      simp only [hl, head_cons] at hhead
      rw [hl, show d = '*' by simpa using hhead]
      exact .inr ⟨l, rfl⟩

section Round

variable {s e₁ e₂ : Str} (he : ∀ c ∈ e₂, c ≠ '\x00') (helen : (e₁ ++ e₂).length < 4294967296) {fuel : Nat}
  (hfuel : (e₁ ++ e₂).length < fuel) (rounds i : Nat) (lastSubstr : Str)

include he helen hfuel

theorem skipStars_eq :
    skipStars incUnsigned (e₁ ++ e₂ ++ ['\x00']) fuel e₁.length = .ok (e₁.length + (e₂.takeWhile (· = '*')).length) := by
  rw [length_append] at helen hfuel
  have hle := ( takeWhile_prefix (fun c => decide (c = '*')) (l := e₂)).length_le
  exact advanceWhile_eq he (fun j hj => incUnsigned_eq (by omega)) (by omega)

theorem segmentEnd_eq :
    segmentEnd (e₁ ++ e₂ ++ ['\x00']) fuel e₁.length = .ok (e₁.length + (e₂.takeWhile (· ≠ '*')).length) := by
  rw [length_append] at helen hfuel
  have hle := ( takeWhile_prefix (fun c => decide (c ≠ '*')) (l := e₂)).length_le
  exact advanceWhile_eq he (fun j hj => incUnsigned_eq (by omega)) (by omega)

theorem matchSegments_stars (hne : e₂ ≠ []) (hstars : e₂.dropWhile (· = '*') = []) :
    matchSegments fuel s (e₁ ++ e₂ ++ ['\x00']) (rounds + 1) i e₁.length e₁.length lastSubstr =
      .ok (some ((e₁ ++ e₂).length, lastSubstr)) := by
  obtain ⟨d, e, rfl⟩ := exists_cons_of_ne_nil hne
  have hall : (d :: e).takeWhile (· = '*') = d :: e := by
    conv_rhs => rw [← takeWhile_append_dropWhile (p := fun c => decide (c = '*')) (l := d :: e), hstars, append_nil]
  rw [matchSegments, charAt_mid, ok_bind, if_neg (he d mem_cons_self), skipStars_eq he helen hfuel, ok_bind, hall,
    ← length_append, charAt_append]
  rfl

theorem matchSegments_segment {stars t rest : Str} (hcut : Cut e₂ stars t rest) :
    matchSegments fuel s (e₁ ++ e₂ ++ ['\x00']) (rounds + 1) i e₁.length e₁.length lastSubstr =
      (do
        match ← searchMatch fuel i t s with
        | none => return none
        | some (_, it) =>
          matchSegments fuel s (e₁ ++ e₂ ++ ['\x00']) rounds it (e₁ ++ (stars ++ t)).length (e₁ ++ (stars ++ t)).length t) := by
  have hrest : ∀ c ∈ t ++ rest, c ≠ '\x00' := fun c hc => he c (hcut.eq ▸ mem_append_right stars hc)
  have hne : t ++ rest ≠ [] := by simp [hcut.ne_nil]
  have hsplit : e₁ ++ e₂ = e₁ ++ stars ++ (t ++ rest) := by rw [hcut.eq, append_assoc]
  obtain ⟨c, hc, hc0⟩ := charAt_ne_zero he (by simp [hcut.eq, hcut.ne_nil]) e₁
  obtain ⟨d, hd, hd0⟩ := charAt_ne_zero hrest hne (e₁ ++ stars)
  have hjt := segmentEnd_eq hrest (hsplit ▸ helen) (hsplit ▸ hfuel)
  rw [hcut.segment_eq] at hjt
  rw [matchSegments, hc, ok_bind, if_neg hc0, skipStars_eq he helen hfuel, ok_bind, hcut.stars_eq, ← length_append,
    hsplit, hd, ok_bind, if_neg hd0, hjt, ok_bind, Nat.add_sub_cancel_left, append_assoc (e₁ ++ stars), drop_left,
    append_assoc t, take_left, ← length_append, append_assoc e₁ stars t]

end Round

theorem matchSegments_spec {s₁ s₂ e₁ e₂ : Str} (hs : ∀ c ∈ s₂, c ≠ '\x00') (he : ∀ c ∈ e₂, c ≠ '\x00') (hne : e₂ ≠ [])
    (hslen : (s₁ ++ s₂).length < 4294967296) (helen : (e₁ ++ e₂).length < 4294967296) {fuel : Nat}
    (hfuel : (s₁ ++ s₂).length + (e₁ ++ e₂).length < fuel) {rounds : Nat} (hrounds : e₂.length < rounds) (lastSubstr : Str) :
    ∃ r, matchSegments fuel (s₁ ++ s₂ ++ ['\x00']) (e₁ ++ e₂ ++ ['\x00']) rounds s₁.length e₁.length e₁.length lastSubstr =
        .ok r ∧ SegmentsResult (s₁ ++ s₂) (e₁ ++ e₂) (Matches (.star :: e₂.map token) s₂) r := by
  induction rounds generalizing s₁ s₂ e₁ e₂ lastSubstr with
  | zero => exact absurd hrounds (not_lt_zero _)
  | succ rounds ih =>
    have hfuel' : (e₁ ++ e₂).length < fuel := by omega
    by_cases hstars : e₂.dropWhile (· = '*') = []
    · refine ⟨_, matchSegments_stars he helen hfuel' rounds _ lastSubstr hne hstars, ?_⟩
      obtain ⟨front, c, hfront⟩ := eq_nil_or_concat e₂ |>.resolve_left hne
      have hc : c = '*' := by
        have hall := dropWhile_eq_nil_iff.mp hstars c (by rw [hfront]; simp)
        simpa using hall
      refine .starred (show e₁ ++ e₂ = e₁ ++ front ++ ['*'] by rw [hfront, hc, concat_eq_append, append_assoc]) ?_
      rw [matches_dropWhile_iff, hstars]
      exact matches_star_singleton s₂
    · obtain ⟨stars, t, rest, hcut⟩ := exists_cut hstars
      rw [matchSegments_segment he helen hfuel' rounds _ lastSubstr hcut, searchMatch]
      have hP : Matches (.star :: e₂.map token) s₂ ↔ Matches (.star :: (t.map token ++ rest.map token)) s₂ := by
        rw [matches_dropWhile_iff, hcut.drop_eq, map_append]
      have hlength : e₂.length = stars.length + (t.length + rest.length) := by
        rw [hcut.eq, length_append, length_append]
      rw [length_append, length_append] at hfuel
      rcases searchOuter_spec hs hcut.noStar hcut.ne_nil hslen
          (show t.length < fuel by omega) (show s₂.length < fuel by omega) with
        ⟨hnone, hall⟩ | ⟨m, hfound, hfits, hfirst⟩
      · refine ⟨none, by rw [hnone]; rfl, .missing ?_⟩
        rw [hP]
        exact not_matches_of_forall (star_notMem_map hcut.noStar) hall
      · have hle : m + t.length ≤ s₂.length := by
          have hle := hfits.length_le
          have hpos := length_pos_iff.mpr hcut.ne_nil
          rw [length_map, length_drop] at hle
          omega
        have hit : s₁.length + m + t.length = (s₁ ++ s₂.take (m + t.length)).length := by
          rw [length_append, length_take_of_le hle, add_assoc]
        have hssplit : s₁ ++ s₂ = s₁ ++ s₂.take (m + t.length) ++ s₂.drop (m + t.length) := by
          rw [append_assoc, take_append_drop]
        have hesplit : e₁ ++ e₂ = e₁ ++ (stars ++ t) ++ rest := by
          rw [hcut.eq, append_assoc e₁, append_assoc stars]
        rw [hfound, ok_bind]
        dsimp only
        rcases hcut.rest_eq with rfl | ⟨e', rfl⟩
        · -- the pattern ends here, and so does the loop
          refine ⟨some ((e₁ ++ e₂).length, t), ?_, ?_⟩
          · have hpos := length_pos_iff.mpr hcut.ne_nil
            obtain ⟨rounds, rfl⟩ := exists_eq_add_one_of_ne_zero (show rounds ≠ 0 by omega)
            rw [matchSegments, hesplit, charAt_end, append_nil]
            rfl
          · refine .ended (show e₁ ++ e₂ = e₁ ++ stars ++ t by simp [hesplit]) hcut.ne_nil hcut.noStar (by simp; omega) ?_
            have hlast := matches_last_iff (star_notMem_map hcut.noStar)
              (show (t.map token).length ≤ s₂.length by rw [length_map]; omega)
            have hdrop : (s₁ ++ s₂).length - t.length = s₁.length + (s₂.length - t.length) := by
              rw [length_append]
              omega
            rw [hP, map_nil, append_nil, hlast, length_map, hdrop, ← drop_drop, drop_left]
        · have hrest := @ih (s₁ ++ s₂.take (m + t.length)) (s₂.drop (m + t.length)) (e₁ ++ (stars ++ t))
            ('*' :: e') (fun c hc => hs c (mem_of_mem_drop hc))
            (fun c hc => he c (hcut.eq ▸ mem_append_right stars (mem_append_right t hc))) (cons_ne_nil _ _)
            (hssplit ▸ hslen) (hesplit ▸ helen) (by rw [← hssplit, ← hesplit, length_append, length_append]; omega)
            (by have hpos := length_pos_iff.mpr hcut.ne_nil; omega) t
          rw [hit, hssplit, hesplit]
          have hfirst := matches_first_iff (p := e'.map token) (star_notMem_map hcut.noStar) hfits hfirst
          rw [length_map] at hfirst
          rw [map_cons, token_star] at hP hrest
          rw [hP, hfirst, ← matches_star_star]
          exact hrest

/-! ### The end of the string -/

theorem matchLast_spec {s₁ s₂ t₁ t₂ : Str} (ht : ∀ c ∈ t₂, c ≠ '*') (hle : t₂.length ≤ s₂.length)
    (hslen : (s₁ ++ s₂).length < 4294967296) (htlen : (t₁ ++ t₂).length < 4294967296) {fuel : Nat} (hfuel : t₂.length < fuel) :
    ∃ b, matchLast (s₁ ++ s₂ ++ ['\x00']) (t₁ ++ t₂) fuel s₁.length t₁.length = .ok b ∧
      (b = true ↔ Fits (t₂.map token) s₂) := by
  induction t₂ generalizing s₁ s₂ t₁ fuel with
  | nil =>
    obtain _ | fuel := fuel
    · cases hfuel
    refine ⟨true, ?_, by simp [Fits]⟩
    rw [matchLast, if_pos (by simp)]
    rfl
  | cons d t₂ ih =>
    obtain _ | fuel := fuel
    · cases hfuel
    obtain ⟨c, s₂, rfl⟩ := exists_cons_of_length_pos (zero_lt_of_lt hle)
    have hd := ht d mem_cons_self
    have hread : charAt (t₁ ++ d :: t₂) t₁.length = .ok d := charAt_append t₁ (d :: t₂)
    rw [matchLast, if_neg (by simp), hread, ok_bind, incUnsigned_length hslen, incUnsigned_length htlen, ok_bind, ok_bind,
      charAt_mid, ok_bind]
    rw [append_cons s₁ c s₂] at hslen ⊢
    rw [append_cons t₁ d t₂] at htlen ⊢
    obtain ⟨b, hb, hiff⟩ := ih (fun a ha => ht a (mem_cons_of_mem d ha)) (le_of_succ_le_succ hle) hslen htlen
      (lt_of_succ_lt_succ hfuel)
    rw [fits_cons hd]
    by_cases hany : d = '?'
    · exact ⟨b, by rw [if_pos hany, hb], by rw [hiff, and_iff_right (.inl hany)]⟩
    rw [if_neg hany]
    by_cases hc : c = d
    · exact ⟨b, by rw [if_neg (not_not.mpr hc), hb], by rw [hiff, and_iff_right (.inr hc)]⟩
    · refine ⟨false, by rw [if_pos hc]; rfl, ?_⟩
      simp [hany, hc]

theorem strlen_eq {s : Str} (hs : ∀ c ∈ s, c ≠ '\x00') : strlen (s ++ ['\x00']) = .ok s.length := by
  rw [strlen, if_pos (by simp), takeWhile_append_of_pos (by simpa using hs)]
  simp

/-! ### The whole comparison -/

theorem skipStars_end {inc : Nat → Except Fault Nat} {e₁ e₂ : Str} (he : ∀ c ∈ e₂, c ≠ '\x00')
    (hinc : ∀ j < e₁.length + (e₂.takeWhile (· = '*')).length, inc j = .ok (j + 1)) {fuel : Nat} (hfuel : e₂.length < fuel) :
    ∃ b : Bool, (do
        let j ← skipStars inc (e₁ ++ e₂ ++ ['\x00']) fuel e₁.length
        let e ← charAt (e₁ ++ e₂ ++ ['\x00']) j
        return (e = '\x00' : Bool)) = .ok b ∧ (b = true ↔ WildcardMatch [] e₂) := by
  have hsplit : e₁ ++ e₂ = e₁ ++ e₂.takeWhile (· = '*') ++ e₂.dropWhile (· = '*') := by
    rw [append_assoc, takeWhile_append_dropWhile]
  rw [skipStars, advanceWhile_eq he hinc hfuel, ok_bind, ← length_append, wildcardMatch_nil_iff, hsplit]
  cases hrest : e₂.dropWhile (· = '*') with
  | nil =>
    rw [charAt_end]
    exact ⟨true, rfl, by simp⟩
  | cons d rest =>
    have hd : d ≠ '\x00' := he d ((dropWhile_sublist _).mem (by rw [hrest]; exact mem_cons_self))
    rw [charAt_mid]
    exact ⟨false, by simp [hd], by simp⟩

theorem charAt_concat (a : Str) (c : Char) (hlen : (a ++ [c]).length < 4294967296) :
    charAt (a ++ [c] ++ ['\x00']) (((a ++ [c]).length + 4294967296 - 1) % 4294967296) = .ok c := by
  rw [length_append, length_singleton] at hlen ⊢
  rw [show (a.length + 1 + 4294967296 - 1) % 4294967296 = a.length by omega]
  exact charAt_mid a [] c

theorem matchEnd_spec {s e : Str} (hs : ∀ c ∈ s, c ≠ '\x00') (hslen : s.length < 4294967296) (helen : e.length < 4294967296)
    {fuel : Nat} (hfuel : s.length < fuel) {P : Prop} {r : Option (Nat × Str)} (hr : SegmentsResult s e P r) :
    ∃ b, matchEnd fuel (s ++ ['\x00']) (e ++ ['\x00']) r = .ok b ∧ (b = true ↔ P) := by
  cases hr with
  | missing hno => exact ⟨false, rfl, by simp [hno]⟩
  | starred he hyes =>
    refine ⟨true, ?_, by simp [hyes]⟩
    rw [he] at helen ⊢
    rw [matchEnd, charAt_concat _ _ helen]
    rfl
  | @ended front t he hne ht hle hiff =>
    obtain ⟨t', c, hc⟩ := (eq_nil_or_concat t).resolve_left hne
    have hstar : c ≠ '*' := ht c (by rw [hc]; simp)
    have hconcat : e = front ++ t' ++ [c] := by rw [he, hc, concat_eq_append, append_assoc]
    rw [hconcat] at helen ⊢
    rw [matchEnd, charAt_concat _ _ helen, ok_bind, if_neg hstar, strlen_eq hs, ok_bind]
    have hindex : (s.length + 2 ^ 64 - t.length) % 4294967296 = (s.take (s.length - t.length)).length := by
      rw [length_take]
      omega
    have hsplit := take_append_drop (s.length - t.length) s
    obtain ⟨b, hb, hfits⟩ := @matchLast_spec (s.take (s.length - t.length)) (s.drop (s.length - t.length)) [] t ht
      (by rw [length_drop]; omega) (by rwa [hsplit]) (lt_of_le_of_lt hle hslen) fuel (by omega)
    rw [hsplit, nil_append, length_nil, ← hindex] at hb
    exact ⟨b, hb, hfits.trans hiff.symm⟩

theorem matchRest_spec {s e : Str} (hs : ∀ c ∈ s, c ≠ '\x00') (he : ∀ c ∈ e, c ≠ '\x00') (hslen : s.length < 4294967296)
    (helen : e.length < 4294967296) {fuel : Nat} (hfuel : s.length + e.length < fuel) {r : Option (Nat × Nat)}
    (hr : FrontResult [] s [] e r) :
    ∃ b, matchRest fuel (s ++ ['\x00']) (e ++ ['\x00']) r = .ok b ∧ (b = true ↔ WildcardMatch s e) := by
  cases hr with
  | differs hno => exact ⟨false, rfl, by simp [hno]⟩
  | @stops u s₃ v e₃ hs' he' hiff hend =>
    subst hs' he'
    have hs₃ : ∀ c ∈ s₃, c ≠ '\x00' := fun c hc => hs c (mem_append_right u hc)
    have he₃ : ∀ c ∈ e₃, c ≠ '\x00' := fun c hc => he c (mem_append_right v hc)
    rw [hiff, matchRest, nil_append, nil_append]
    by_cases hnil : s₃ = []
    · subst hnil
      rw [charAt_end, ok_bind, if_pos rfl]
      have hle := ( takeWhile_prefix (fun c => decide (c = '*')) (l := e₃)).length_le
      rw [length_append, length_append] at hfuel
      rw [length_append] at helen
      exact skipStars_end he₃ (fun j hj => incUnsigned_eq (by omega)) (by omega)
    obtain ⟨c, hc, hc0⟩ := charAt_ne_zero hs₃ hnil u
    rw [hc, ok_bind, if_neg hc0]
    rcases hend with hnil' | rfl | ⟨e₄, rfl⟩
    · exact absurd hnil' hnil
    · rw [charAt_end]
      exact ⟨false, rfl, by simp [WildcardMatch, Matches, hnil]⟩
    · obtain ⟨r, hr, hresult⟩ := matchSegments_spec hs₃ he₃ (cons_ne_nil _ _) hslen helen hfuel
        (show _ < fuel by rw [length_append, length_append] at hfuel; omega) []
      rw [charAt_mid, ok_bind, if_neg (by decide), hr, ok_bind]
      obtain ⟨b, hb, hb'⟩ := matchEnd_spec hs hslen helen (show _ < fuel by omega) hresult
      refine ⟨b, hb, hb'.trans ?_⟩
      rw [map_cons, token_star, matches_star_star]
      rfl

theorem matchExp_spec (str exp : CString) (hstr : str.text.length < 4294967296) (hexp : exp.text.length < 4294967296)
    (hstars : str.text = [] → (exp.text.takeWhile (· = '*')).length < intLimit) {fuel : Nat}
    (hfuel : str.text.length + exp.text.length < fuel) :
    ∃ b, matchExp fuel str.array exp.array = .ok b ∧ (b = true ↔ WildcardMatch str.text exp.text) := by
  obtain ⟨s, hs⟩ := str
  obtain ⟨e, he⟩ := exp
  dsimp only [CString.array] at hstr hexp hstars hfuel ⊢
  rw [matchExp]
  by_cases hnil : s = []
  · subst hnil
    have hint := hstars rfl
    exact @skipStars_end incInt [] e he (fun j hj => if_pos (by simp at hj; omega)) fuel (by simpa using hfuel)
  obtain ⟨c, hc, hc0⟩ := charAt_ne_zero hs hnil []
  rw [nil_append, length_nil] at hc
  rw [hc, ok_bind, if_neg hc0]
  by_cases hnil' : e = []
  · subst hnil'
    exact ⟨false, rfl, by simp [WildcardMatch, Matches, hnil]⟩
  obtain ⟨d, hd, hd0⟩ := charAt_ne_zero he hnil' []
  obtain ⟨r, hr, hresult⟩ := @matchFront_spec [] s [] e hs he hstr hexp fuel (by omega)
  rw [nil_append, length_nil] at hd
  rw [nil_append, nil_append, length_nil] at hr
  rw [hd, ok_bind, if_neg hd0, hr, ok_bind]
  exact matchRest_spec hs he hstr hexp hfuel hresult

/-- `match_exp` returns, with enough turns, and says whether the string matches. -/
theorem matchExp_iff (str exp : CString) (hstr : str.text.length < 4294967296) (hexp : exp.text.length < 4294967296)
    (hstars : str.text = [] → (exp.text.takeWhile (· = '*')).length < intLimit) {fuel : Nat}
    (hfuel : str.text.length + exp.text.length < fuel) :
    (matchExp fuel str.array exp.array = .ok true ↔ WildcardMatch str.text exp.text) ∧
      (matchExp fuel str.array exp.array = .ok false ↔ ¬ WildcardMatch str.text exp.text) := by
  obtain ⟨b, hb, hiff⟩ := matchExp_spec str exp hstr hexp hstars hfuel
  rw [hb, ← hiff]
  simp

theorem matchExp_iff_sample :
    matchExp 20 (CString.array ⟨"abcabd".toList, by decide⟩) (CString.array ⟨"a*b?".toList, by decide⟩) = .ok true ∧
      WildcardMatch "abcabd".toList "a*b?".toList := by
  have hiff := matchExp_iff ⟨"abcabd".toList, by decide⟩ ⟨"a*b?".toList, by decide⟩ (by decide) (by decide) (by decide)
    (by decide : _ < 20)
  have htrue : matchExp 20 (CString.array ⟨"abcabd".toList, by decide⟩) (CString.array ⟨"a*b?".toList, by decide⟩) =
      .ok true := by decide
  exact ⟨htrue, hiff.1.mp htrue⟩

/-! ### Longer strings -/

def CString.repeated (n : Nat) (c : Char) (hc : c ≠ '\x00') : CString where
  text := List.replicate n c
  noZero d hd := by rwa [eq_of_mem_replicate hd]

theorem charAt_repeated {n i : Nat} {c : Char} (hc : c ≠ '\x00') (hi : i < n) :
    charAt (CString.repeated n c hc).array i = .ok c := by
  rw [charAt_eq_ok_iff, CString.array, CString.repeated, getElem?_append_left (by rwa [length_replicate]),
    getElem?_replicate, if_pos hi]

theorem matchFront_unfinished {c : Char} (hc : c ≠ '\x00') (hstar : c ≠ '*') (fuel : Nat) {i : Nat} (hi : i < 4294967296) :
    matchFront (CString.repeated 4294967296 c hc).array (CString.repeated 4294967296 c hc).array fuel i i =
      .error .unfinished := by
  induction fuel generalizing i with
  | zero => rfl
  | succ fuel ih =>
    rw [matchFront, charAt_repeated hc hi, ok_bind, if_neg hc, ok_bind, if_neg (by simp [hc, hstar]), if_neg (by simp),
      incUnsigned, ok_bind, ok_bind]
    exact ih (mod_lt _ (by decide))

theorem skipStars_overflow (fuel : Nat) {j : Nat} (hj : j < intLimit) :
    ∃ e, skipStars incInt (CString.repeated intLimit '*' (by decide)).array fuel j = .error e := by
  induction fuel generalizing j with
  | zero => exact ⟨_, rfl⟩
  | succ fuel ih =>
    rw [skipStars, advanceWhile, charAt_repeated _ hj, ok_bind, if_pos (by decide), incInt]
    by_cases hlast : j + 1 < intLimit
    · rw [if_pos hlast]
      exact ih hlast
    · rw [if_neg hlast]
      exact ⟨_, rfl⟩

theorem wildcardMatch_self {s : Str} (hs : ∀ c ∈ s, c ≠ '*') : WildcardMatch s s := by
  induction s with
  | nil => rfl
  | cons c s ih =>
    rw [wildcardMatch_cons (hs c mem_cons_self)]
    exact ⟨.inr rfl, ih fun d hd => hs d (mem_cons_of_mem c hd)⟩

/-- Four gigabytes of one character, and half of that in stars for the empty string. -/
theorem matchExp_long :
    ((∀ fuel, matchExp fuel (CString.repeated 4294967296 'a' (by decide)).array
        (CString.repeated 4294967296 'a' (by decide)).array = .error .unfinished) ∧
      WildcardMatch (CString.repeated 4294967296 'a' (by decide)).text (CString.repeated 4294967296 'a' (by decide)).text) ∧
    ((∀ fuel, matchExp fuel (CString.repeated 0 'a' (by decide)).array
        (CString.repeated 2147483648 '*' (by decide)).array ≠ .ok true) ∧
      WildcardMatch (CString.repeated 0 'a' (by decide)).text (CString.repeated 2147483648 '*' (by decide)).text) := by
  refine ⟨⟨fun fuel => ?_, wildcardMatch_self fun c hc => ?_⟩, fun fuel => ?_, ?_⟩
  · have hfirst : charAt (CString.repeated 4294967296 'a' (by decide)).array 0 = .ok 'a' := charAt_repeated _ (by decide)
    rw [matchExp, hfirst, ok_bind, if_neg (by decide), ok_bind, if_neg (by decide), matchFront_unfinished _ (by decide) _
      (by decide)]
    rfl
  · rw [eq_of_mem_replicate hc]
    decide
  · obtain ⟨e, he⟩ := skipStars_overflow fuel (j := 0) (by decide)
    have hfirst : charAt (CString.repeated 0 'a' (by decide)).array 0 = .ok '\x00' := rfl
    rw [matchExp, hfirst, ok_bind, if_pos rfl]
    change (skipStars incInt (CString.repeated intLimit '*' _).array fuel 0 >>= _) ≠ _
    rw [he]
    exact fun h => by cases h
  · rw [show (CString.repeated 0 'a' (by decide)).text = [] from rfl, wildcardMatch_nil_iff, dropWhile_eq_nil_iff]
    intro c hc
    rw [eq_of_mem_replicate hc]
    rfl

end Avbot.Qqwry
