import Avbot.Bot.Log
import Avbot.Http.Parsers
import Avbot.Base.MachineInt

/-!
# `html_unescape` undoes `html_escape`

Four passes over the text, the first of which replaces `&`, so that no later pass touches what an earlier one has written. The reader looks entities up in a table and drops those it does not know.
-/

namespace Avbot

open List

/-- The names of `html_unescape_char` and their texts in UTF-8, in the order in which they are compared. -/
def entities : List (String × String) :=
  [("nbsp", " "), ("mdash", "-"), ("quot", "\""), ("amp", "&"), ("lt", "<"), ("gt", ">"), ("ndash", "\xe2\x80\x93"),
    ("euro", "\xe2\x82\xac"), ("sup1", "\xc2\xb9"), ("sup2", "\xc2\xb2"), ("sup3", "\xc2\xb3"), ("iexcl", "\xc2\xa1"),
    ("cent", "\xc2\xa2"), ("pound", "\xc2\xa3"), ("curren", "\xc2\xa4"), ("yen", "\xc2\xa5"), ("brvbar", "\xc2\xa6"),
    ("sect", "\xc2\xa7"), ("uml", "\xc2\xa8"), ("copy", "\xc2\xa9"), ("ordf", "\xc2\xaa"), ("not", "\xc2\xac"),
    ("reg", "\xc2\xae"), ("macr", "\xc2\xaf"), ("deg", "\xc2\xb0"), ("plusmn", "\xc2\xb1"), ("acute", "\xc2\xb4"),
    ("micro", "\xc2\xb5"), ("para", "\xc2\xb6"), ("middot", "\xc2\xb7"), ("cedil", "\xc2\xb8"), ("ordm", "\xc2\xba"),
    ("raquo", "\xc2\xbb"), ("frac14", "\xc2\xbc"), ("frac12", "\xc2\xbd"), ("frac34", "\xc2\xbe"),
    ("iquest", "\xc2\xbf"), ("Agrave", "\xc3\x80"), ("Aacute", "\xc3\x81"), ("Acirc", "\xc3\x82"),
    ("Atilde", "\xc3\x83"), ("Auml", "\xc3\x84"), ("Aring", "\xc3\x85"), ("AElig", "\xc3\x86"),
    ("Ccedil", "\xc3\x87"), ("Egrave", "\xc3\x88"), ("Eacute", "\xc3\x89"), ("Ecirc", "\xc3\x8a"),
    ("Euml", "\xc3\x8b"), ("Igrave", "\xc3\x8c"), ("Iacute", "\xc3\x8d"), ("Icirc", "\xc3\x8e"), ("Iuml", "\xc3\x8f"),
    ("ETH", "\xc3\x90"), ("Ntilde", "\xc3\x91"), ("Ograve", "\xc3\x92"), ("Oacute", "\xc3\x93"),
    ("Ocirc", "\xc3\x94"), ("Otilde", "\xc3\x95"), ("Ouml", "\xc3\x96"), ("times", "\xc3\x97"),
    ("Oslash", "\xc3\x98"), ("Ugrave", "\xc3\x99"), ("Uacute", "\xc3\x9a"), ("Ucirc", "\xc3\x9b"),
    ("Uuml", "\xc3\x9c"), ("Yacute", "\xc3\x9d"), ("THORN", "\xc3\x9e"), ("szlig", "\xc3\x9f"),
    ("agrave", "\xc3\xa0"), ("aacute", "\xc3\xa1"), ("acirc", "\xc3\xa2"), ("atilde", "\xc3\xa3"),
    ("auml", "\xc3\xa4"), ("aring", "\xc3\xa5"), ("aelig", "\xc3\xa6"), ("ccedil", "\xc3\xa7"),
    ("egrave", "\xc3\xa8"), ("eacute", "\xc3\xa9"), ("ecirc", "\xc3\xaa"), ("euml", "\xc3\xab"),
    ("igrave", "\xc3\xac"), ("iacute", "\xc3\xad"), ("agrave", "\xc3\xad"), ("icirc", "\xc3\xae"),
    ("iuml", "\xc3\xaf"), ("eth", "\xc3\xb0"), ("ntilde", "\xc3\xb1"), ("ograve", "\xc3\xb2"), ("oacute", "\xc3\xb3"),
    ("ocirc", "\xc3\xb4"), ("otilde", "\xc3\xb5"), ("ouml", "\xc3\xb6"), ("divide", "\xc3\xb7"),
    ("oslash", "\xc3\xb8"), ("ugrave", "\xc3\xb9"), ("uacute", "\xc3\xba"), ("ucirc", "\xc3\xbb"),
    ("uuml", "\xc3\xbc"), ("yacute", "\xc3\xbd"), ("thorn", "\xc3\xbe")]

/-- `html_unescape_char`, where `utfToUtf` is the conversion of one `wchar_t` by Boost.Locale. -/
def htmlUnescapeChar (utfToUtf : Int → Str) (escaped : Str) : Str :=
  match escaped with
  | '#' :: digits => utfToUtf (int32 (Http.strtoll (Str.cStr digits)))
  | _ => (entities.find? fun e => escaped = e.1.toList).elim [] fun e => e.2.toList

/-- The loop of `html_unescape`, with `retstr`, `unes` and what is left of the text. -/
def htmlUnescapeLoop (utfToUtf : Int → Str) (retstr : Str) (unes : Bool) (left : Str) : Str :=
  match left with
  | [] => retstr
  | c :: s =>
    if unes then
      match _hend : (c :: s).dropWhile (· ≠ ';') with
      | _ :: rest =>
        htmlUnescapeLoop utfToUtf (retstr ++ htmlUnescapeChar utfToUtf ((c :: s).takeWhile (· ≠ ';'))) false rest
      -- a text in UTF-8 that says that there is an error
      | [] => "\xe8\xa7\xa3\xe7\xa0\x81\xe9\x94\x99\xe8\xaf\xaf".toList
    else if c = '&' then htmlUnescapeLoop utfToUtf retstr true s
    else htmlUnescapeLoop utfToUtf (retstr ++ [c]) false s
termination_by left.length
decreasing_by
  · have hle := (dropWhile_suffix (· ≠ ';') (l := c :: s)).length_le
    rw [_hend, length_cons, length_cons] at hle
    simp only [length_cons]
    omega
  · simp
  · simp

def htmlUnescape (utfToUtf : Int → Str) (htmlcharseq : Str) : Str := htmlUnescapeLoop utfToUtf [] false htmlcharseq

def escapedChar (c : Char) : Str :=
  if c = '&' then "&amp;".toList
  else if c = '<' then "&lt;".toList
  else if c = '>' then "&gt;".toList
  else if c = ' ' then "&nbsp;".toList
  else [c]

theorem htmlEscape_eq (txt : Str) : htmlEscape txt = txt.flatMap escapedChar := by
  have hpass : ∀ (s sub : Str) (p : Char), Str.replaceAll s [p] sub = s.flatMap fun c => if c = p then sub else [c] :=
    replaceAll_single
  show Str.replaceAll (Str.replaceAll (Str.replaceAll (Str.replaceAll txt ['&'] _) ['<'] _) ['>'] _) [' '] _ = _
  rw [hpass, hpass, hpass, hpass, flatMap_assoc, flatMap_assoc, flatMap_assoc]
  refine flatMap_congr fun c _ => ?_
  rw [escapedChar]
  by_cases hamp : c = '&'
  · subst hamp
    decide
  · by_cases hlt : c = '<'
    · subst hlt
      decide
    · by_cases hgt : c = '>'
      · subst hgt
        decide
      · simp only [if_neg hamp, if_neg hlt, if_neg hgt, flatMap_singleton]

section Scan

variable {utfToUtf : Int → Str} {retstr s : Str}

theorem htmlUnescapeLoop_plain {c : Char} (hc : c ≠ '&') :
    htmlUnescapeLoop utfToUtf retstr false (c :: s) = htmlUnescapeLoop utfToUtf (retstr ++ [c]) false s := by
  rw [htmlUnescapeLoop, if_neg (by simp), if_neg hc]

theorem htmlUnescapeLoop_entity {name : Str} (hname : ';' ∉ name) :
    htmlUnescapeLoop utfToUtf retstr false ('&' :: (name ++ ';' :: s)) =
      htmlUnescapeLoop utfToUtf (retstr ++ htmlUnescapeChar utfToUtf name) false s := by
  have hall : ∀ c ∈ name, decide (c ≠ ';') = true := fun c hc => by simpa using fun h : c = ';' => hname (h ▸ hc)
  have hdrop : (name ++ ';' :: s).dropWhile (· ≠ ';') = ';' :: s := by
    rw [dropWhile_append_of_pos hall]
    simp
  have htake : (name ++ ';' :: s).takeWhile (· ≠ ';') = name := by
    rw [takeWhile_append_of_pos hall]
    simp
  rw [htmlUnescapeLoop, if_neg (by simp), if_pos rfl]
  obtain ⟨c, rest, hcons⟩ := exists_cons_of_ne_nil (l := name ++ ';' :: s) (by simp)
  rw [hcons] at hdrop htake
  rw [hcons, htmlUnescapeLoop, if_pos rfl]
  split
  next d left hend =>
    grind
  next hend =>
    rw [hdrop] at hend
    cases hend

theorem htmlUnescapeLoop_escapedChar (c : Char) :
    htmlUnescapeLoop utfToUtf retstr false (escapedChar c ++ s) = htmlUnescapeLoop utfToUtf (retstr ++ [c]) false s := by
  rw [escapedChar]
  by_cases hamp : c = '&'
  · rw [if_pos hamp, hamp]
    exact @htmlUnescapeLoop_entity _ _ _ "amp".toList (by decide)
  · rw [if_neg hamp]
    by_cases hlt : c = '<'
    · rw [if_pos hlt, hlt]
      exact @htmlUnescapeLoop_entity _ _ _ "lt".toList (by decide)
    · rw [if_neg hlt]
      by_cases hgt : c = '>'
      · rw [if_pos hgt, hgt]
        exact @htmlUnescapeLoop_entity _ _ _ "gt".toList (by decide)
      · rw [if_neg hgt]
        by_cases hblank : c = ' '
        · rw [if_pos hblank, hblank]
          exact @htmlUnescapeLoop_entity _ _ _ "nbsp".toList (by decide)
        · rw [if_neg hblank]
          exact htmlUnescapeLoop_plain hamp

theorem htmlUnescapeLoop_escaped (txt : Str) : htmlUnescapeLoop utfToUtf retstr false (txt.flatMap escapedChar) = retstr ++ txt := by
  induction txt generalizing retstr with
  | nil =>
    rw [flatMap_nil, htmlUnescapeLoop, append_nil]
  | cons c txt ih =>
    grind [htmlUnescapeLoop_escapedChar]

end Scan

/-- A text comes back from its escaped form, which has no bracket and no blank. -/
theorem htmlUnescape_htmlEscape (utfToUtf : Int → Str) (s : Str) :
    htmlUnescape utfToUtf (htmlEscape s) = s ∧ '<' ∉ htmlEscape s ∧ '>' ∉ htmlEscape s ∧ ' ' ∉ htmlEscape s := by
  obtain ⟨hlt, hgt⟩ := not_mem_htmlEscape s
  refine ⟨?_, hlt, hgt, ?_⟩
  · rw [htmlUnescape, htmlEscape_eq, htmlUnescapeLoop_escaped, nil_append]
  · simp [htmlEscape, mem_replaceAll_single]

end Avbot
