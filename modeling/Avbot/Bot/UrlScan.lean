import Avbot.Http.HeaderFields
import Avbot.Lib.Occurrences

/-!
# The URLs in a message

`urlpreview::operator()` looks for a URL in the text, has it previewed and cuts the text for the next round: at the length of the URL behind the first character of the text that occurs anywhere in the URL.
-/

namespace Avbot.UrlPreview

open List Option Pattern
open Str (cStr trim)

/-- `\w`. -/
def isWord (c : Char) : Bool := c.isAlphanum || c == '_'

/-- `[\w\d\.\?\$\-\+\|&@#/%=~_!:,]`. -/
def isUrlChar (c : Char) : Bool := isWord c || c.isDigit || c ∈ ".?$-+|&@#/%=~_!:,".toList

/-- `[\w\d\+&@#/%=~_\|\$]`. -/
def isUrlEnd (c : Char) : Bool := isWord c || c.isDigit || c ∈ "+&@#/%=~_|$".toList

def schemeItems : List (Item Char) := lit "http".toList ++ .opt (· == 's') :: lit "://".toList

def urlItems : List (Item Char) := schemeItems ++ [.many isUrlChar, .one isUrlEnd]

/-- The expression `https?://[\w\d\.\?\$\-\+\|&@#/%=~_!:,]*[\w\d\+&@#/%=~_\|\$]`. -/
def urlRegex : Regex Char := ⟨urlItems, []⟩

def findFirstOf (s chars : Str) : Option Nat := s.findIdx? (· ∈ chars)

/-- `txt.erase(0, pos + url.length())`, where `npos + n` is `n - 1`. -/
def eraseUrl (txt url : Str) : Str :=
  match findFirstOf txt url with
  | some pos => txt.drop (pos + url.length)
  | none => txt.drop (url.length - 1)

def operatorCall : Nat → Str → Option (List Str)
  | 0, _ => none
  | fuel + 1, txt =>
    match urlRegex.search (cStr txt) with
    | none => some []
    | some what =>
      let url := what.getD 0 []
      (operatorCall fuel (eraseUrl txt url)).map (trim url :: ·)

/-- The same calls, each with the place of its match in the message, of which `i` characters have been erased. -/
def calls : Nat → Nat → Str → Option (List (Nat × Str))
  | 0, _, _ => none
  | fuel + 1, i, txt =>
    match searchItems urlItems (cStr txt) with
    | none => some []
    | some (pre, ts, _) =>
      let rest := eraseUrl txt ts.flatten
      (calls fuel (i + (txt.length - rest.length)) rest).map ((i + pre.length, trim ts.flatten) :: ·)

theorem map_calls (fuel i : Nat) (txt : Str) : (calls fuel i txt).map (·.map Prod.snd) = operatorCall fuel txt := by
  induction fuel generalizing i txt with
  | zero => rfl
  | succ fuel ih =>
    rw [calls, operatorCall, Regex.search]
    cases hsearch : searchItems urlItems (cStr txt) with
    | none =>
      have hregex : searchItems urlRegex.items (cStr txt) = none := hsearch
      rw [hregex]
      rfl
    | some m =>
      have hregex : searchItems urlRegex.items (cStr txt) = some m := hsearch
      obtain ⟨pre, ts, rest⟩ := m
      rw [hregex, map_some]
      dsimp only [Regex.what, getD_cons_zero]
      rw [← ih (i + (txt.length - (eraseUrl txt ts.flatten).length)), Option.map_map, Option.map_map]
      rfl

/-- What comes behind as many characters as the URL has, counted from the first one that also occurs in the URL. -/
def leftOver (pre url : Str) : Str := (pre.dropWhile (· ∉ url) ++ url).drop url.length

inductive CutsClean : Str → Prop
  | none {txt : Str} (hnone : searchItems urlItems txt = none) : CutsClean txt
  | cut {txt pre rest : Str} {ts : List Str} (hsearch : searchItems urlItems txt = some (pre, ts, rest))
      (hleft : searchItems urlItems (leftOver pre ts.flatten) = none)
      (hrest : CutsClean (leftOver pre ts.flatten ++ rest)) : CutsClean txt

section Cut

variable {txt pre rest : Str} {ts : List Str}

theorem cutsClean_iff (hsearch : searchItems urlItems txt = some (pre, ts, rest)) :
    CutsClean txt ↔ searchItems urlItems (leftOver pre ts.flatten) = none ∧ CutsClean (leftOver pre ts.flatten ++ rest) := by
  constructor
  · intro hclean
    cases hclean with
    | none hnone =>
      rw [hsearch] at hnone
      cases hnone
    | cut hsearch' hleft hrest =>
      grind
  · rintro ⟨hleft, hrest⟩
    exact .cut hsearch hleft hrest

theorem length_leftOver (pre url : Str) : (leftOver pre url).length = (pre.dropWhile (· ∉ url)).length := by
  grind [leftOver]

theorem length_leftOver_le (pre url : Str) : (leftOver pre url).length ≤ pre.length := by
  rw [length_leftOver]
  exact (dropWhile_suffix _).length_le

theorem findFirstOf_append {url : Str} (hurl : url ≠ []) (pre rest : Str) :
    findFirstOf (pre ++ (url ++ rest)) url = some (pre.takeWhile (· ∉ url)).length := by
  rw [findFirstOf]
  induction pre with
  | nil =>
    obtain ⟨c, url', rfl⟩ := exists_cons_of_ne_nil hurl
    rw [nil_append, cons_append, List.findIdx?_cons, if_pos (decide_eq_true mem_cons_self)]
    rfl
  | cons d pre ih =>
    rw [cons_append, List.findIdx?_cons, ih]
    by_cases hd : d ∈ url <;> simp [hd]

theorem eraseUrl_eq {url : Str} (hurl : url ≠ []) (pre rest : Str) :
    eraseUrl (pre ++ (url ++ rest)) url = leftOver pre url ++ rest := by
  have hsplit : pre.takeWhile (· ∉ url) ++ pre.dropWhile (· ∉ url) = pre := takeWhile_append_dropWhile
  have hle : url.length ≤ (pre.dropWhile (· ∉ url) ++ url).length := by
    grind
  rw [eraseUrl, findFirstOf_append hurl]
  dsimp only
  rw [leftOver, ← drop_append_of_le_length hle, append_assoc]
  conv_lhs => rw [← hsplit, append_assoc, hsplit]
  rw [← drop_drop, drop_left]

end Cut

theorem isUrlChar_of_scheme : ∀ it ∈ schemeItems, ∀ c, it.cls c = true → isUrlChar c = true := by
  have hlit : ∀ text : Str, (∀ d ∈ text, isUrlChar d = true) →
      ∀ it ∈ lit text, ∀ c, it.cls c = true → isUrlChar c = true := by
    intro text htext it hit c hc
    obtain ⟨d, hd, rfl⟩ := mem_map.mp hit
    rw [show c = d from beq_iff_eq.mp hc]
    exact htext d hd
  intro it hit
  rcases mem_append.mp hit with hit | hit
  · exact hlit _ (by decide) it hit
  rcases mem_cons.mp hit with rfl | hit
  · intro c hc
    rw [show c = 's' from beq_iff_eq.mp hc]
    decide
  · exact hlit _ (by decide) it hit

theorem isUrlChar_of_isUrlEnd {c : Char} (hc : isUrlEnd c = true) : isUrlChar c = true := by
  have hsub : ∀ d ∈ "+&@#/%=~_|$".toList, d ∈ ".?$-+|&@#/%=~_!:,".toList := by decide
  rw [isUrlEnd, Bool.or_eq_true, decide_eq_true_iff] at hc
  rw [isUrlChar, Bool.or_eq_true, decide_eq_true_iff]
  exact hc.imp_right (hsub c)

section Match

variable {s rest : Str} {ts : List Str}

section

variable (hmatch : matchFront (fun _ => true) urlItems s = some (ts, rest))

include hmatch

theorem match_parts :
    ∃ us x c, ts.flatten = us ++ (x ++ [c]) ∧ (∀ d ∈ us, isUrlChar d = true) ∧ (∀ d ∈ x, isUrlChar d = true) ∧
      isUrlEnd c = true ∧
      matchFront (fun _ => true) [.many isUrlChar, .one isUrlEnd] (x ++ [c] ++ rest) = some ([x, [c]], rest) := by
  obtain ⟨us, vs, mid, rfl, -, hscheme, hmid⟩ := matchFront_append hmatch
  obtain ⟨hmid', -, hfits⟩ := matchFront_sound hmid
  obtain ⟨x, tail, hx, htail, rfl⟩ := forall₂_cons_left_iff.mp hfits
  obtain ⟨y, nothing, hy, hnothing, rfl⟩ := forall₂_cons_left_iff.mp htail
  obtain rfl := forall₂_nil_left_iff.mp hnothing
  obtain ⟨c, rfl, hc⟩ := Item.fits_one_iff.mp hy
  refine ⟨us.flatten, x, c, by simp, forall_mem_flatten isUrlChar_of_scheme hscheme, hx.1, hc, ?_⟩
  rw [← hmid, hmid']
  simp

theorem match_chars : ∃ v c, ts.flatten = v ++ [c] ∧ (∀ d ∈ v, isUrlChar d = true) ∧ isUrlEnd c = true := by
  grind [match_parts]

theorem match_longest {w rest' : Str} {d : Char}
    (hrest : rest = w ++ d :: rest') (hw : ∀ c ∈ w, isUrlChar c = true) : isUrlEnd d = false := by
  obtain ⟨us, x, c, -, -, hx, hc, hmid⟩ := match_parts hmatch
  by_contra hd
  have hd : isUrlEnd d = true := by simpa using hd
  have htake : (x ++ [c] ++ rest).take (x ++ [c] ++ w).length = x ++ [c] ++ w := by
    rw [hrest, ← append_assoc, take_left]
  have hdrop : (x ++ [c] ++ rest).drop (x ++ [c] ++ w).length = d :: rest' := by
    rw [hrest, ← append_assoc, drop_left]
  have hlong : (x ++ [c] ++ w).length ∈ (Item.many isUrlChar).lengths (x ++ [c] ++ rest) := by
    rw [Item.mem_lengths, htake, hrest]
    refine ⟨by simp, fun d hd => ?_, Nat.zero_le _, by simp [Item.many]⟩
    rcases mem_append.mp hd with hd | hd
    · rcases mem_append.mp hd with hd | hd
      · exact hx d hd
      · rw [mem_singleton.mp hd]
        exact isUrlChar_of_isUrlEnd hc
    · exact hw d hd
  have hnone := matchFront_longer rfl hmid hlong (by simp)
  rw [hdrop, matchFront_one hd] at hnone
  cases hnone

theorem flatten_ne_nil : ts.flatten ≠ [] := by
  obtain ⟨v, c, hflatten, -, -⟩ := match_chars hmatch
  rw [hflatten]
  exact append_ne_nil_of_right_ne_nil v (cons_ne_nil c [])

theorem trim_flatten : trim ts.flatten = ts.flatten := by
  obtain ⟨v, c, hflatten, hv, hc⟩ := match_chars hmatch
  have hspace : ∀ d, isUrlChar d = true → Str.isSpace d = false := by
    intro d hd
    by_contra hspace
    rcases Str.isSpace_cases (by simpa using hspace) with rfl | rfl | rfl | rfl | rfl | rfl <;>
      exact absurd hd (by decide)
  refine Http.trim_eq_self_of_forall fun d hd => hspace d ?_
  grind [isUrlChar_of_isUrlEnd]

end

end Match

theorem cls_zero : ∀ it ∈ urlItems, it.cls '\x00' = false := by
  intro it hit
  rcases mem_append.mp hit with hit | hit
  · by_contra hzero
    exact absurd (isUrlChar_of_scheme it hit '\x00' (by simpa using hzero)) (by decide)
  · rcases mem_cons.mp hit with rfl | hit
    · decide
    · rw [mem_singleton.mp hit]
      decide

theorem searchItems_leftOver {txt pre rest : Str} {ts : List Str} (hsearch : searchItems urlItems txt = some (pre, ts, rest))
    (hleft : searchItems urlItems (leftOver pre ts.flatten) = none) :
    searchItems urlItems (leftOver pre ts.flatten ++ rest) =
      (searchItems urlItems rest).map fun m => (leftOver pre ts.flatten ++ m.1, m.2) := by
  refine searchItems_append fun p q hsplit hq => ?_
  by_contra hmatch
  obtain ⟨⟨vs, back⟩, hvs⟩ := ne_none_iff_exists'.mp hmatch
  obtain ⟨htext, -, hfits⟩ := matchFront_sound hvs
  rcases append_eq_append_iff.mp htext with ⟨w, hw, hrest⟩ | ⟨w, hw, -⟩
  · -- the match goes on behind the URL, which was not the longest then
    obtain ⟨v, c, hflatten, hv, hc⟩ := match_chars hvs
    rcases eq_nil_or_concat w with rfl | ⟨w', d, rfl⟩
    · grind [searchItems_complete]
    · rw [concat_eq_append] at hw hrest
      rw [hw, ← append_assoc] at hflatten
      obtain ⟨rfl, hd⟩ := append_inj' hflatten rfl
      obtain rfl := singleton_inj.mp hd
      have hend := match_longest (matchFront_of_searchItems hsearch) (hrest.trans (append_assoc _ _ _))
        fun e he => hv e (mem_append_right q he)
      rw [hc] at hend
      cases hend
  · -- the match stands in what is left
    exact searchItems_complete hleft (by rw [hsplit, hw]) hfits

inductive Run : Nat → Str → List (Nat × Str) → Prop
  | stop {i : Nat} {txt : Str} (hnone : searchItems urlItems txt = none) : Run i txt []
  | round {i j : Nat} {txt pre rest : Str} {ts : List Str} {l : List (Nat × Str)}
      (hsearch : searchItems urlItems txt = some (pre, ts, rest))
      (hj : j + (leftOver pre ts.flatten).length = i + pre.length + ts.flatten.length)
      (hrun : Run j (leftOver pre ts.flatten ++ rest) l) : Run i txt ((i + pre.length, ts.flatten) :: l)

theorem length_of_search {txt pre rest : Str} {ts : List Str} (hsearch : searchItems urlItems txt = some (pre, ts, rest)) :
    txt.length = pre.length + ts.flatten.length + rest.length ∧ 0 < ts.flatten.length := by
  refine ⟨?_, length_pos_of_ne_nil (flatten_ne_nil (matchFront_of_searchItems hsearch))⟩
  rw [(searchItems_sound hsearch).1, length_append, length_append, Nat.add_assoc]

namespace Run

variable {i : Nat} {txt : Str} {l : List (Nat × Str)}

theorem place_lt (hrun : Run i txt l) {m : Nat × Str} (hm : m ∈ l) : m.1 < i + txt.length := by
  induction hrun with
  | stop => cases hm
  | @round i j txt pre rest ts l hsearch hj hrun ih =>
    obtain ⟨hlength, hpos⟩ := length_of_search hsearch
    grind

theorem occurrences_iff (hrun : Run i txt l) : Occurrences urlItems i txt l ↔ CutsClean txt := by
  induction hrun with
  | stop hnone => exact iff_of_true (.nil hnone) (.none hnone)
  | @round i j txt pre rest ts l hsearch hj hrun ih =>
    rw [Occurrences.cons_iff hsearch, cutsClean_iff hsearch]
    by_cases hleft : searchItems urlItems (leftOver pre ts.flatten) = none
    · grind [Occurrences.append_iff, searchItems_leftOver]
    · refine iff_of_false ?_ fun hclean => hleft hclean.1
      rintro ⟨-, -, hrest⟩
      -- the next call is for a match that starts before the end of this one
      obtain ⟨⟨p, us, back⟩, hus⟩ := ne_none_iff_exists'.mp hleft
      obtain ⟨htext, hfits⟩ := searchItems_sound hus
      cases hrun with
      | stop hnone =>
        grind [searchItems_complete]
      | @round _ _ _ pre' _ _ _ hsearch' _ _ =>
        have hle := searchItems_leftmost hsearch' (by rw [htext, append_assoc, append_assoc]) hfits
        have hplace := hrest.place_le mem_cons_self
        have hlength := (length_of_search hus)
        omega

theorem exists_calls {tail : Str} (htail : cStr tail = []) {n : Nat} {txt : Str} (hn : txt.length < n)
    (hzero : '\x00' ∉ txt) (i : Nat) : ∃ l, Run i txt l ∧ ∀ fuel > txt.length, calls fuel i (txt ++ tail) = some l := by
  induction n generalizing txt i with
  | zero => exact absurd hn (Nat.not_lt_zero _)
  | succ n ih =>
    have hcStr : cStr (txt ++ tail) = txt := by rw [Str.cStr_append_of_not_mem hzero, htail, append_nil]
    cases hsearch : searchItems urlItems txt with
    | none =>
      refine ⟨[], .stop hsearch, fun fuel hfuel => ?_⟩
      obtain ⟨fuel, rfl⟩ := Nat.exists_eq_add_of_lt hfuel
      rw [calls, hcStr, hsearch]
    | some m =>
      obtain ⟨pre, ts, rest⟩ := m
      have hmatch := matchFront_of_searchItems hsearch
      obtain ⟨htxt, -⟩ := searchItems_sound hsearch
      obtain ⟨hlength, hpos⟩ := length_of_search hsearch
      have hle := length_leftOver_le pre ts.flatten
      have herase : eraseUrl (txt ++ tail) ts.flatten = leftOver pre ts.flatten ++ rest ++ tail := by
        rw [htxt, append_assoc, append_assoc, eraseUrl_eq (flatten_ne_nil hmatch), append_assoc]
      have hshort : (leftOver pre ts.flatten ++ rest).length < txt.length := by
        rw [length_append]
        omega
      have hzero' : '\x00' ∉ leftOver pre ts.flatten ++ rest := by
        rw [htxt, mem_append, mem_append, not_or, not_or] at hzero
        rw [mem_append, not_or]
        refine ⟨fun hmem => ?_, hzero.2.2⟩
        rcases mem_append.mp (mem_of_mem_drop hmem) with hmem | hmem
        · exact hzero.1 ((dropWhile_suffix _).subset hmem)
        · exact hzero.2.1 hmem
      have hplace : i + ((txt ++ tail).length - (leftOver pre ts.flatten ++ rest ++ tail).length) +
          (leftOver pre ts.flatten).length = i + pre.length + ts.flatten.length := by
        simp only [length_append]
        omega
      obtain ⟨l, hrun, hcalls⟩ := ih (by omega) hzero'
        (i + ((txt ++ tail).length - (leftOver pre ts.flatten ++ rest ++ tail).length))
      refine ⟨(i + pre.length, ts.flatten) :: l, .round hsearch hplace hrun, fun fuel hfuel => ?_⟩
      obtain ⟨fuel, rfl⟩ := Nat.exists_eq_add_of_lt hfuel
      grind [calls, trim_flatten]

end Run

theorem searchItems_zero (back : Str) :
    searchItems urlItems ('\x00' :: back) = (searchItems urlItems back).map fun m => ('\x00' :: m.1, m.2) :=
  searchItems_separator_none (s := []) cls_zero (by decide) back

theorem Run.occurrences_zero_iff {i : Nat} {txt : Str} {l : List (Nat × Str)} (hrun : Run i txt l) (back : Str) :
    Occurrences urlItems i (txt ++ '\x00' :: back) l ↔ CutsClean txt ∧ searchItems urlItems ('\x00' :: back) = none := by
  rw [Occurrences.separator_iff cls_zero, ← hrun.occurrences_iff, searchItems_zero, map_eq_none_iff]
  constructor
  · rintro ⟨l₁, l₂, rfl, hfront, hback⟩
    cases hback with
    | nil hnone => exact ⟨by rwa [append_nil], hnone⟩
    | cons hsearch hrest =>
      have hlt := hrun.place_lt (mem_append_right l₁ mem_cons_self)
      omega
  · rintro ⟨hfront, hnone⟩
    exact ⟨l, [], (append_nil l).symm, hfront, .nil hnone⟩

/-- The calls are for the successive matches of the message if each cut is clean and the message has no match behind its first zero. -/
theorem operatorCall_iff (txt : Str) :
    ∃ l : List (Nat × Str),
      (∀ fuel > txt.length, operatorCall fuel txt = some (l.map Prod.snd) ∧ calls fuel 0 txt = some l) ∧
      (Occurrences urlItems 0 txt l ↔
        CutsClean (cStr txt) ∧ searchItems urlItems (txt.drop (cStr txt).length) = none) := by
  -- the text is what stands before its first zero, and a tail
  obtain ⟨s, tail, rfl, hzero, htail⟩ : ∃ s tail, txt = s ++ tail ∧ '\x00' ∉ s ∧ (tail = [] ∨ ∃ back, tail = '\x00' :: back) := by
    by_cases hmem : '\x00' ∈ txt
    · obtain ⟨s, back, rfl, hs⟩ := eq_append_cons_of_mem hmem
      grind
    · exact ⟨txt, [], (append_nil txt).symm, hmem, .inl rfl⟩
  have hempty : cStr tail = [] := by
    rcases htail with rfl | ⟨back, rfl⟩
    · rfl
    · rfl
  obtain ⟨l, hrun, hcalls⟩ := Run.exists_calls hempty (Nat.lt_succ_self _) hzero 0
  refine ⟨l, fun fuel hfuel => ?_, ?_⟩
  · grind [map_calls]
  · rw [Str.cStr_append_of_not_mem hzero, hempty, append_nil, drop_left]
    rcases htail with rfl | ⟨back, rfl⟩
    · rw [append_nil, hrun.occurrences_iff, and_iff_left]
      decide
    · exact hrun.occurrences_zero_iff back

theorem operatorCall_twice :
    (∀ fuel > 25, operatorCall fuel "have a look at http://a.b".toList = some ["http://a.b".toList, "http://a.b".toList]) ∧
      Occurrences urlItems 0 "have a look at http://a.b".toList [(15, "http://a.b".toList)] := by
  have hsearch : searchItems urlItems "have a look at http://a.b".toList =
      some ("have a look at ".toList, ["h", "t", "t", "p", "", ":", "/", "/", "a.", "b"].map String.toList, []) := by decide
  constructor
  · intro fuel hfuel
    obtain ⟨l, hrun, hcalls⟩ := @Run.exists_calls [] rfl 26 "have a look at http://a.b".toList (by decide) (by decide) 0
    rw [append_nil] at hcalls
    obtain rfl : l = _ := some.inj ((hcalls 26 (by decide)).symm.trans (by decide :
      calls 26 0 "have a look at http://a.b".toList = some [(15, "http://a.b".toList), (15, "http://a.b".toList)]))
    rw [← map_calls fuel 0, hcalls fuel hfuel]
    rfl
  · exact .cons hsearch (.nil (by decide))

end Avbot.UrlPreview
