import Avbot.Mail.Imf
import Avbot.Lib.Fallible
import Avbot.Lib.Words

/-!
# The lines of a written mail

What `imf_write_stream` writes, as a list of lines. Read back, the lines of a field come together again without the blanks at the folds, and only the very first line of the mail keeps its carriage return.
-/

namespace Avbot

open List
open Str (base64Text base64TextLines cStr isSpace padding trim trimRight)

namespace Str

theorem lines_append {l : Str} (hl : '\n' ∉ l) (s : Str) : lines (l ++ '\n' :: s) = l :: lines s := by
  rw [lines, lines, splitOn, splitOnP_append_cons _ _ (by simp), splitOn,
    splitOnP_eq_singleton (by intro c hc; simpa using fun h : c = '\n' => hl (h ▸ hc)), singleton_append]

theorem lines_single {l : Str} (hl : '\n' ∉ l) : lines l = [l] := by
  rw [lines, splitOn, splitOnP_eq_singleton (by intro c hc; simpa using fun h : c = '\n' => hl (h ▸ hc))]

theorem lines_flatMap {ls : List Str} (hls : ∀ l ∈ ls, '\n' ∉ l) (s : Str) :
    lines (ls.flatMap (· ++ crlf) ++ s) = ls.map (· ++ ['\r']) ++ lines s := by
  induction ls with
  | nil => rfl
  | cons l ls ih =>
    have hl : '\n' ∉ l ++ ['\r'] := by simpa using hls l (by simp)
    have hsplit : (l :: ls).flatMap (· ++ crlf) ++ s = (l ++ ['\r']) ++ '\n' :: (ls.flatMap (· ++ crlf) ++ s) := by
      simp [crlf]
    rw [hsplit, lines_append hl, ih fun m hm => hls m (by simp [hm])]
    rfl

theorem lines_ne_nil (s : Str) : lines s ≠ [] := splitOnP_ne_nil _ s

theorem line_cases (s : Str) : '\n' ∉ s ∨ ∃ l t, s = l ++ '\n' :: t ∧ '\n' ∉ l := by
  by_cases hs : '\n' ∈ s
  · obtain ⟨l, t, rfl, hl⟩ := eq_append_cons_of_mem hs
    exact .inr ⟨l, t, rfl, hl⟩
  · exact .inl hs

theorem flatMap_lines (s : Str) : (lines s).flatMap (· ++ ['\n']) = s ++ ['\n'] := by
  induction hlength : s.length using Nat.strongRecOn generalizing s with
  | ind n ih =>
    rcases line_cases s with hs | ⟨l, t, rfl, hl⟩
    · simp [lines_single hs]
    · rw [lines_append hl, flatMap_cons, ih t.length (by simp [← hlength]; omega) t rfl]
      simp

end Str

namespace Imf

/-! ### Writing -/

/-- What `imf_base64inline_encode` gives for a text whose length the encoder can hold. -/
def encodedWord (str : Str) : Str := "=?utf8?B?".toList ++ base64Text str ++ "?=".toList

theorem encodedWord_eq_append (str : Str) :
    encodedWord str = "=?utf8?B?".toList ++ base64Text str ++ "?=".toList := rfl

def addressText (mail : Str) : Str :=
  match mailaddrRegex.search (cStr mail) with
  | some what => "\"".toList ++ encodedWord (what.getD 1 []) ++ "\" ".toList ++ trim (what.getD 2 []) ++ "; ".toList
  | none => mail ++ "; ".toList

def adds (hl : Str × Str) : List Str :=
  if hl.1 = "from".toList ∨ hl.1 = "to".toList then (mailAddressSplit hl.2).map addressText
  else if hl.1 = "subject".toList then [encodedWord hl.2]
  else [hl.2]

def addressName (mail : Str) : Option Str := (mailaddrRegex.search (cStr mail)).map fun what => what.getD 1 []

/-- The texts of a field that `imf_base64inline_encode` is called with. -/
def encodedTexts (hl : Str × Str) : List Str :=
  if hl.1 = "from".toList ∨ hl.1 = "to".toList then (mailAddressSplit hl.2).filterMap addressName
  else if hl.1 = "subject".toList then [hl.2]
  else []

def Encodable (hl : Str × Str) : Prop := ∀ text ∈ encodedTexts hl, text.length < 4294967298

instance (hl : Str × Str) : Decidable (Encodable hl) := inferInstanceAs (Decidable (∀ _ ∈ _, _))

def fieldText (out : Str) (hl : Str × Str) : Str :=
  (adds hl).foldl checkedNewlineAppend (out ++ hl.1 ++ ": ".toList) ++ Str.crlf

def foldLines : Str → List Str → List Str
  | line, [] => [line]
  | line, add :: more =>
    if 78 ≤ line.length - 1 + add.length then line :: foldLines ('\t' :: add) more else foldLines (line ++ add) more

def headerLines (hl : Str × Str) : List Str := foldLines (hl.1 ++ ": ".toList) (adds hl)

def OneLine (s : Str) : Prop := '\r' ∉ s ∧ '\n' ∉ s

instance (s : Str) : Decidable (OneLine s) := inferInstanceAs (Decidable ('\r' ∉ s ∧ '\n' ∉ s))

variable {l done line add s t text src mail : Str} {more : List Str} {α β : Type} {hl : Str × Str}
    {block : Str × List Str} {blocks : List (Str × List Str)}

theorem imfBase64inlineEncode_eq (htext : text.length < 4294967298) :
    imfBase64inlineEncode text = .ok (encodedWord text) := by
  rw [imfBase64inlineEncode, Boost.base64Encode_eq htext]
  rfl

theorem imfBase64inlineEncode_of_long (htext : ¬ text.length < 4294967298) :
    imfBase64inlineEncode text = .error .undefined := by
  rw [imfBase64inlineEncode, Boost.base64Encode_of_long (by omega)]
  rfl

theorem mailaddrText_eq (hname : ∀ name ∈ addressName mail, name.length < 4294967298) :
    mailaddrText mail = .ok (addressText mail) := by
  rw [mailaddrText, addressText]
  cases hsearch : mailaddrRegex.search (cStr mail) with
  | none => rfl
  | some what =>
    simp only [imfBase64inlineEncode_eq (hname _ (by rw [addressName, hsearch]; rfl))]
    rfl

theorem mailaddrText_of_long {name : Str} (hname : addressName mail = some name) (hlong : ¬ name.length < 4294967298) :
    mailaddrText mail = .error .undefined := by
  obtain ⟨what, hsearch, rfl⟩ := Option.map_eq_some_iff.mp hname
  rw [mailaddrText, hsearch]
  simp only [imfBase64inlineEncode_of_long hlong]
  rfl

theorem imfMailaddrBase64inlineEncode_eq (out str : Str) :
    imfMailaddrBase64inlineEncode out str =
      if ∀ text ∈ (mailAddressSplit str).filterMap addressName, text.length < 4294967298 then
        .ok (((mailAddressSplit str).map addressText).foldl checkedNewlineAppend out)
      else .error .undefined := by
  have hok : ∀ mail : Str, (∀ name ∈ addressName mail, name.length < 4294967298) → ∀ out,
      (mailaddrText mail).map (checkedNewlineAppend out) = .ok (checkedNewlineAppend out (addressText mail)) := by
    intro mail hname out
    rw [mailaddrText_eq hname]
    rfl
  have hfails : ∀ (mail name : Str), addressName mail = some name → ¬ name.length < 4294967298 → ∀ out,
      (mailaddrText mail).map (checkedNewlineAppend out) = .error .undefined := by
    intro mail name hname hlong out
    rw [mailaddrText_of_long hname hlong]
    rfl
  rw [imfMailaddrBase64inlineEncode]
  split
  case isTrue hall =>
    rw [foldl_map]
    apply Fallible.foldlM_eq_ok
    intro mail hmail
    exact hok mail fun name hname => hall name (mem_filterMap.mpr ⟨mail, hmail, hname⟩)
  case isFalse hlong =>
    push Not at hlong
    obtain ⟨name, hname, hle⟩ := hlong
    obtain ⟨mail, hmail, hname⟩ := mem_filterMap.mp hname
    have hstep : ∀ mail ∈ mailAddressSplit str,
        (∀ out, (mailaddrText mail).map (checkedNewlineAppend out) = .ok (checkedNewlineAppend out (addressText mail))) ∨
          ∀ out, (mailaddrText mail).map (checkedNewlineAppend out) = .error .undefined := by
      intro mail _
      by_cases hshort : ∀ name ∈ addressName mail, name.length < 4294967298
      · exact .inl (hok mail hshort)
      · push Not at hshort
        obtain ⟨name, hname, hle⟩ := hshort
        exact .inr (hfails mail name hname (by omega))
    exact Fallible.foldlM_eq_error hstep ⟨mail, hmail, hfails mail name hname (by omega)⟩ out

theorem writeHeader_eq (out : Str) (hl : Str × Str) :
    writeHeader out hl = if Encodable hl then .ok (fieldText out hl) else .error .undefined := by
  simp only [writeHeader, Encodable, encodedTexts, fieldText, adds]
  by_cases haddress : hl.1 = "from".toList ∨ hl.1 = "to".toList
  · simp only [if_pos haddress, imfMailaddrBase64inlineEncode_eq]
    split <;> rfl
  · simp only [if_neg haddress]
    by_cases hsubject : hl.1 = "subject".toList
    · simp only [if_pos hsubject, forall_mem_singleton]
      by_cases hshort : hl.2.length < 4294967298
      · simp only [if_pos hshort, imfBase64inlineEncode_eq hshort]
        rfl
      · simp only [if_neg hshort, imfBase64inlineEncode_of_long hshort]
        rfl
    · simp only [if_neg hsubject, not_mem_nil, false_implies, implies_true, if_true]
      rfl

def headerText (header : List (Str × Str)) : Str := header.foldl fieldText []

theorem foldlM_writeHeader {header : List (Str × Str)} (hall : ∀ hl ∈ header, Encodable hl) :
    header.foldlM writeHeader [] = .ok (headerText header) := by
  apply Fallible.foldlM_eq_ok
  intro hl hmem out
  rw [writeHeader_eq, if_pos (hall hl hmem)]

theorem foldlM_writeHeader_of_not {header : List (Str × Str)} (hnot : ¬ ∀ hl ∈ header, Encodable hl) :
    header.foldlM writeHeader [] = .error .undefined := by
  have hfails : ∀ hl, ¬ Encodable hl → ∀ out, writeHeader out hl = .error .undefined := by
    intro hl hlong out
    rw [writeHeader_eq, if_neg hlong]
  push Not at hnot
  obtain ⟨hl, hmem, hlong⟩ := hnot
  have hstep : ∀ hl ∈ header, (∀ out, writeHeader out hl = .ok (fieldText out hl)) ∨
      ∀ out, writeHeader out hl = .error .undefined := by
    intro hl _
    by_cases hshort : Encodable hl
    · exact .inl fun out => by rw [writeHeader_eq, if_pos hshort]
    · exact .inr (hfails hl hshort)
  exact Fallible.foldlM_eq_error hstep ⟨hl, hmem, hfails hl hlong⟩ []

theorem findIdx_append_cons {p : Char → Bool} {m : Str} {c : Char} (hl : ∀ d ∈ l, p d = false) (hc : p c = true) :
    (l ++ c :: m).findIdx p = l.length := by
  induction l with
  | nil => simp [findIdx_cons, hc]
  | cons d l ih =>
    rw [cons_append, findIdx_cons, hl d (by simp), cond_false, ih fun e he => hl e (by simp [he]), length_cons]

section

variable (hdone : done = [] ∨ ∃ d, done = d ++ Str.crlf)

include hdone

theorem lineLength_eq (hline : OneLine line)
    (hne : line ≠ []) : lineLength (done ++ line) add = line.length - 1 + add.length := by
  have hplain : ∀ c ∈ line, (decide (c ∈ "\r\n".toList)) = false := by
    intro c hc
    have h₁ : c ≠ '\r' := fun h => hline.1 (h ▸ hc)
    have h₂ : c ≠ '\n' := fun h => hline.2 (h ▸ hc)
    simp [h₁, h₂]
  rcases hdone with rfl | ⟨d, rfl⟩
  · have hlast : lastNewline line = none := by
      rw [lastNewline, if_neg]
      simpa using fun c hc => hplain c hc
    rw [nil_append, lineLength, hlast]
    exact if_neg hne
  · have hindex : (d ++ Str.crlf ++ line).reverse.findIdx (fun c => decide (c ∈ "\r\n".toList)) = line.length := by
      have hreverse : (d ++ Str.crlf ++ line).reverse = line.reverse ++ '\n' :: '\r' :: d.reverse := by simp [Str.crlf]
      rw [hreverse, findIdx_append_cons (fun c hc => hplain c (mem_reverse.mp hc)) (by decide), length_reverse]
    have hlength : (d ++ Str.crlf ++ line).length = d.length + 2 + line.length := by
      simp only [length_append, Str.crlf, length_cons, length_nil]
    have hlast : lastNewline (d ++ Str.crlf ++ line) = some (d.length + 1) := by
      have hany : (d ++ Str.crlf ++ line).any (fun c => decide (c ∈ "\r\n".toList)) = true := by simp [Str.crlf]
      rw [lastNewline, if_pos hany, hindex, hlength, Option.some.injEq]
      omega
    have hpos := length_pos_iff.mpr hne
    rw [lineLength, hlast]
    show (if (d ++ Str.crlf ++ line).length < d.length + 3 then _ else _) = _
    rw [if_neg (by omega), hlength]
    omega

theorem checkedNewlineAppend_eq (hline : OneLine line) (hne : line ≠ []) :
    checkedNewlineAppend (done ++ line) add =
      if 78 ≤ line.length - 1 + add.length then (done ++ line ++ Str.crlf) ++ '\t' :: add else done ++ (line ++ add) := by
  rw [checkedNewlineAppend, lineLength_eq hdone hline hne]
  split <;> simp [Str.crlf]

theorem foldl_checkedNewlineAppend (hline : OneLine line) (hne : line ≠ []) (hmore : ∀ add ∈ more, OneLine add) :
    more.foldl checkedNewlineAppend (done ++ line) ++ Str.crlf = done ++ (foldLines line more).flatMap (· ++ Str.crlf) := by
  induction more generalizing done line with
  | nil => simp [foldLines]
  | cons add more ih =>
    have hadd := hmore add (by simp)
    have hrest : ∀ a ∈ more, OneLine a := fun a ha => hmore a (by simp [ha])
    rw [foldl_cons, checkedNewlineAppend_eq hdone hline hne, foldLines]
    split
    case isTrue =>
      have hfold : OneLine ('\t' :: add) := ⟨by simpa using hadd.1, by simpa using hadd.2⟩
      rw [ih (.inr ⟨_, rfl⟩) hfold (by simp) hrest]
      simp
    case isFalse =>
      have hlonger : OneLine (line ++ add) := ⟨by simp [hline.1, hadd.1], by simp [hline.2, hadd.2]⟩
      exact ih hdone hlonger (by simp [hne]) hrest

end

theorem foldLines_eq (line : Str) (more : List Str) :
    ∃ tail conts, foldLines line more = (line ++ tail) :: conts ∧
      ∀ l ∈ conts, ∃ add ∈ more, ∃ t, l = '\t' :: (add ++ t) := by
  induction more generalizing line with
  | nil => exact ⟨[], [], by simp [foldLines], by simp⟩
  | cons add more ih =>
    rw [foldLines]
    split
    case isTrue =>
      obtain ⟨tail, conts, hfold, hconts⟩ := ih ('\t' :: add)
      refine ⟨[], ('\t' :: (add ++ tail)) :: conts, by rw [hfold]; simp, ?_⟩
      intro l hl
      rcases mem_cons.mp hl with rfl | hl
      · exact ⟨add, by simp, tail, rfl⟩
      · obtain ⟨a, ha, t, rfl⟩ := hconts l hl
        exact ⟨a, by simp [ha], t, rfl⟩
    case isFalse =>
      obtain ⟨tail, conts, hfold, hconts⟩ := ih (line ++ add)
      refine ⟨add ++ tail, conts, by rw [hfold]; simp, ?_⟩
      intro l hl
      obtain ⟨a, ha, t, rfl⟩ := hconts l hl
      exact ⟨a, by simp [ha], t, rfl⟩

theorem oneLine_of_mem_foldLines (hline : OneLine line) (hmore : ∀ add ∈ more, OneLine add)
    (hl : l ∈ foldLines line more) : OneLine l := by
  induction more generalizing line with
  | nil => simpa [foldLines] using mem_singleton.mp hl ▸ hline
  | cons add more ih =>
    have hadd := hmore add (by simp)
    have hrest : ∀ a ∈ more, OneLine a := fun a ha => hmore a (by simp [ha])
    rw [foldLines] at hl
    split at hl
    · rcases mem_cons.mp hl with rfl | hl
      · exact hline
      · exact ih ⟨by simpa using hadd.1, by simpa using hadd.2⟩ hrest hl
    · exact ih ⟨by simp [hline.1, hadd.1], by simp [hline.2, hadd.2]⟩ hrest hl

/-! ### The fields of a single-part mail -/

def IsName (name : Str) : Prop :=
  name ≠ [] ∧ ∀ c ∈ name, 32 < c.toNat ∧ c.toNat < 127 ∧ c ≠ ':' ∧ ¬ ('A' ≤ c ∧ c ≤ 'Z')

def IsValue (value : Str) : Prop :=
  value ≠ [] ∧ OneLine value ∧ (∀ c ∈ value.head?, isSpace c = false) ∧ ∀ c ∈ value.getLast?, isSpace c = false

def IsField (hl : Str × Str) : Prop := IsName hl.1 ∧ IsValue hl.2

instance (s : Str) : Decidable (OneLine s) := inferInstanceAs (Decidable (_ ∧ _))

instance (name : Str) : Decidable (IsName name) := inferInstanceAs (Decidable (_ ∧ _))

instance (value : Str) : Decidable (IsValue value) := inferInstanceAs (Decidable (_ ∧ _))

def Solid (s : Str) : Prop := ∃ c ∈ s, isSpace c = false

def Continues (l : Str) : Prop := ∃ c t, l = c :: t ∧ isSpace c = true ∧ Solid t

theorem isSpace_of_isName {name : Str} (hname : IsName name) : ∀ c ∈ name, isSpace c = false := by
  intro c hc
  have hlo := (hname.2 c hc).1
  cases hspace : isSpace c with
  | false => rfl
  | true =>
    rcases Str.isSpace_cases hspace with rfl | rfl | rfl | rfl | rfl | rfl <;> exact absurd hlo (by decide)

theorem oneLine_of_no_space (hs : ∀ c ∈ s, isSpace c = false) : OneLine s :=
  ⟨fun h => absurd (hs _ h) (by decide), fun h => absurd (hs _ h) (by decide)⟩

theorem oneLine_append (hs : OneLine s) (ht : OneLine t) : OneLine (s ++ t) :=
  ⟨by simp [hs.1, ht.1], by simp [hs.2, ht.2]⟩

theorem oneLine_encodedWord (str : Str) : OneLine (encodedWord str) := by
  refine oneLine_append (oneLine_append (by decide) (oneLine_of_no_space fun c hc => ?_)) (by decide)
  rcases Str.mem_base64Text hc with hc | rfl
  · exact (Str.alphabet_plain c hc).1
  · decide

theorem oneLine_addressText (hmail : OneLine mail) : OneLine (addressText mail) := by
  rw [addressText]
  split
  case h_1 what hsearch =>
    have htrim : OneLine (trim (what.getD 2 [])) := by
      have hsub : ∀ c ∈ trim (what.getD 2 []), c ∈ mail := by
        intro c hc
        have hraw : c ∈ what.getD 2 [] := ( rdropWhile_prefix _ _).subset ((dropWhile_suffix _).subset hc)
        exact ( takeWhile_prefix _).subset (Pattern.Regex.mem_of_search hsearch hraw)
      exact ⟨fun h => hmail.1 (hsub _ h), fun h => hmail.2 (hsub _ h)⟩
    exact oneLine_append (oneLine_append (oneLine_append (oneLine_append (by decide)
      (oneLine_encodedWord _)) (by decide)) htrim) (by decide)
  case h_2 => exact oneLine_append hmail (by decide)

theorem solid_addressText (mail : Str) : Solid (addressText mail) := by
  refine ⟨';', ?_, by decide⟩
  rw [addressText]
  split <;> simp

theorem adds_spec (hfield : IsField hl) : ∀ add ∈ adds hl, OneLine add ∧ Solid add := by
  intro add hadd
  rw [adds] at hadd
  split at hadd
  · obtain ⟨mail, hmail, rfl⟩ := mem_map.mp hadd
    have hline : OneLine mail :=
      ⟨fun h => hfield.2.2.1.1 (Words.mem_of_mem_splitOnP hmail h), fun h => hfield.2.2.1.2 (Words.mem_of_mem_splitOnP hmail h)⟩
    exact ⟨oneLine_addressText hline, solid_addressText mail⟩
  · split at hadd
    · obtain rfl : add = encodedWord hl.2 := mem_singleton.mp hadd
      have hmem : '=' ∈ encodedWord hl.2 := mem_append_left _ (mem_append_left _ (by decide))
      exact ⟨oneLine_encodedWord hl.2, '=', hmem, by decide⟩
    · rw [mem_singleton.mp hadd]
      obtain ⟨c, value, hvalue⟩ := exists_cons_of_ne_nil hfield.2.1
      exact ⟨hfield.2.2.1, c, by simp [hvalue], hfield.2.2.2.1 c (by simp [hvalue])⟩

theorem headerLines_eq (hfield : IsField hl) :
    ∃ tail conts, headerLines hl = (hl.1 ++ ':' :: ' ' :: tail) :: conts ∧ ∀ l ∈ conts, Continues l := by
  obtain ⟨tail, conts, hfold, hconts⟩ := foldLines_eq (hl.1 ++ ": ".toList) (adds hl)
  refine ⟨tail, conts, by rw [headerLines, hfold]; simp, ?_⟩
  intro l hmem
  obtain ⟨add, hadd, t, rfl⟩ := hconts l hmem
  obtain ⟨c, hc, hspace⟩ := (adds_spec hfield add hadd).2
  exact ⟨'\t', add ++ t, rfl, by decide, c, by simp [hc], hspace⟩

theorem oneLine_headerLines (hfield : IsField hl) : ∀ l ∈ headerLines hl, OneLine l :=
  fun _ hmem => oneLine_of_mem_foldLines
    (oneLine_append (oneLine_of_no_space (isSpace_of_isName hfield.1)) (by decide))
    (fun add hadd => (adds_spec hfield add hadd).1) hmem

theorem flatMap_crlf {ls : List Str} (hls : ls ≠ []) : ∃ d, ls.flatMap (· ++ Str.crlf) = d ++ Str.crlf := by
  cases ls using reverseRecOn with
  | nil => exact absurd rfl hls
  | append_singleton ls l => exact ⟨ls.flatMap (· ++ Str.crlf) ++ l, by simp⟩

theorem foldl_fieldText {header : List (Str × Str)} (hfields : ∀ hl ∈ header, IsField hl)
    (hdone : done = [] ∨ ∃ d, done = d ++ Str.crlf) :
    header.foldl fieldText done = done ++ (header.flatMap headerLines).flatMap (· ++ Str.crlf) := by
  induction header generalizing done with
  | nil => simp
  | cons hl header ih =>
    have hfield := hfields hl (by simp)
    have hwrite : fieldText done hl = done ++ (headerLines hl).flatMap (· ++ Str.crlf) := by
      rw [fieldText, append_assoc done, foldl_checkedNewlineAppend hdone
        (oneLine_append (oneLine_of_no_space (isSpace_of_isName hfield.1)) (by decide)) (by simp)
        (fun add hadd => (adds_spec hfield add hadd).1)]
      rfl
    have hdone' : ∃ d, done ++ (headerLines hl).flatMap (· ++ Str.crlf) = d ++ Str.crlf := by
      obtain ⟨tail, conts, hlines, _⟩ := headerLines_eq hfield
      obtain ⟨d, hd⟩ := flatMap_crlf (show headerLines hl ≠ [] by simp [hlines])
      exact ⟨done ++ d, by rw [hd, append_assoc]⟩
    rw [foldl_cons, hwrite, ih (fun hl' h => hfields hl' (by simp [h])) (.inr hdone'), flatMap_cons,
      flatMap_append, append_assoc]

def encodingField : Str × Str := ("content-transfer-encoding".toList, "base64".toList)

theorem isField_encodingField : IsField encodingField :=
  ⟨⟨by decide, by decide⟩, by decide, by decide, by decide, by decide⟩

theorem isField_of_mem_append {header : List (Str × Str)} (hfields : ∀ hl ∈ header, IsField hl) :
    ∀ hl ∈ header ++ [encodingField], IsField hl := by
  intro hl hmem
  rcases mem_append.mp hmem with hmem | hmem
  · exact hfields hl hmem
  · rw [mem_singleton.mp hmem]
    exact isField_encodingField

theorem lines_write {header : List (Str × Str)} (hfields : ∀ hl ∈ header, IsField hl) (body : Str) :
    Str.lines (headerText header ++ "content-transfer-encoding: base64\r\n\r\n".toList ++ body) =
      ((header ++ [encodingField]).flatMap headerLines).map (· ++ ['\r']) ++ ['\r'] :: Str.lines body := by
  have hencoding : headerLines encodingField = ["content-transfer-encoding: base64".toList] := by decide
  have hall := isField_of_mem_append hfields
  have htext : headerText header ++ "content-transfer-encoding: base64\r\n\r\n".toList ++ body =
      ((header ++ [encodingField]).flatMap headerLines).flatMap (· ++ Str.crlf) ++ (['\r'] ++ '\n' :: body) := by
    rw [headerText, foldl_fieldText hfields (.inl rfl), flatMap_append, flatMap_append, flatMap_singleton, hencoding]
    simp [Str.crlf]
  have hlines : ∀ l ∈ (header ++ [encodingField]).flatMap headerLines, '\n' ∉ l := by
    intro l hl
    obtain ⟨field, hfield, hl⟩ := mem_flatMap.mp hl
    exact (oneLine_headerLines (hall field hfield) l hl).2
  rw [htext, Str.lines_flatMap hlines, Str.lines_append (by decide)]

/-! ### Reading -/

variable (process : Str → Option (Except ImfExn (Str × Str)))

def andThen {α β : Type} (r : Option (Except ImfExn α)) (f : α → Option (Except ImfExn β)) : Option (Except ImfExn β) :=
  match r with
  | some (.ok a) => f a
  | some (.error e) => some (.error e)
  | none => none

theorem andThen_eq_ok {r : Option (Except ImfExn α)} {f : α → Option (Except ImfExn β)} {b : β} :
    andThen r f = some (.ok b) ↔ ∃ a, r = some (.ok a) ∧ f a = some (.ok b) := by
  rcases r with _ | ⟨_ | _⟩ <;> simp [andThen]

theorem andThen_assoc {γ : Type} (r : Option (Except ImfExn α)) (f : α → Option (Except ImfExn β))
    (g : β → Option (Except ImfExn γ)) : andThen (andThen r f) g = andThen r fun a => andThen (f a) g := by
  rcases r with _ | ⟨_ | _⟩ <;> rfl

def store (header : List (Str × Str)) (line : Str) : Option (Except ImfExn (List (Str × Str))) :=
  match process line with
  | none => none
  | some (.ok entry) => some (.ok (insert header entry))
  | some (.error .badExpression) => some (.ok header)
  | some (.error e) => some (.error e)

def storeAll : List (Str × Str) → List Str → Option (Except ImfExn (List (Str × Str)))
  | header, [] => some (.ok header)
  | header, line :: rest => andThen (store process header line) fun header => storeAll header rest

def lineRead (first : Bool) (hl : Str × Str) : Str :=
  match headerLines hl with
  | [] => []
  | line :: conts => (if first then line ++ ['\r'] else trimRight line) ++ conts.flatMap trim

variable {process} {header : List (Str × Str)} {pre : Str} {rest : List Str}
    {reader : Nat → Str → Option (Except ImfExn (Str × Str))} {n : Nat}

theorem solid_trimRight (ht : Solid t) : trimRight t ≠ [] := by
  obtain ⟨c, hc, hspace⟩ := ht
  intro hnil
  exact absurd (rdropWhile_eq_nil_iff.mp hnil c hc) (by simp [hspace])

theorem readLoop_conts {conts : List Str} (hconts : ∀ l ∈ conts, Continues l) :
    readLoop process header pre (conts.map (· ++ ['\r']) ++ rest) =
      readLoop process header (pre ++ conts.flatMap trim) rest := by
  induction conts generalizing pre with
  | nil => simp
  | cons l conts ih =>
    obtain ⟨c, t, rfl, hc, ht⟩ := hconts l (by simp)
    have htrim : trimRight (c :: t) = c :: trimRight t :=
      Str.trimRight_append_of_ne_nil (s := [c]) (solid_trimRight ht)
    have hfold : (trimRight (c :: t)).head?.any isSpace = true := by
      rw [htrim]
      exact hc
    rw [map_cons, cons_append, readLoop, Str.trimRight_crlf, if_pos hfold,
      ih fun l hl => hconts l (by simp [hl]), flatMap_cons, ← append_assoc]
    rfl

theorem readLoop_store (hpre : pre ≠ []) (hline : (trimRight line).head?.any isSpace = false) :
    readLoop process header pre (line :: rest) =
      andThen (store process header pre) fun header => readLoop process header (trimRight line) rest := by
  rw [readLoop, if_neg (by simp [hline]), if_pos hpre, store]
  rcases hprocess : process pre with _ | ⟨e | entry⟩
  · rfl
  · cases e <;> rfl
  · rfl

def IsBlock (block : Str × List Str) : Prop :=
  trimRight block.1 ≠ [] ∧ (trimRight block.1).head?.any isSpace = false ∧ ∀ l ∈ block.2, Continues l

def blockRead (first : Bool) (block : Str × List Str) : Str :=
  (if first then block.1 ++ ['\r'] else trimRight block.1) ++ block.2.flatMap trim

def blockLines (block : Str × List Str) : List Str := block.1 :: block.2

theorem blockRead_ne_nil (hblock : IsBlock block) (first : Bool) : blockRead first block ≠ [] := by
  cases first <;> simp [blockRead, hblock.1]

theorem readLoop_block (hblock : IsBlock block) (hpre : pre ≠ []) :
    readLoop process header pre ((blockLines block).map (· ++ ['\r']) ++ rest) =
      andThen (store process header pre) fun header => readLoop process header (blockRead false block) rest := by
  have hhead : (trimRight (block.1 ++ ['\r'])).head?.any isSpace = false := by
    rw [Str.trimRight_crlf]
    exact hblock.2.1
  rw [blockLines, map_cons, cons_append, readLoop_store hpre hhead]
  congr 1
  funext header
  rw [readLoop_conts hblock.2.2, Str.trimRight_crlf]
  rfl

theorem readLoop_blocks (hblocks : ∀ block ∈ blocks, IsBlock block) (hpre : pre ≠ []) :
    readLoop process header pre ((blocks.flatMap blockLines).map (· ++ ['\r']) ++ ['\r'] :: rest) =
      andThen (storeAll process header (pre :: blocks.map (blockRead false))) fun header =>
        readLoop process header [] rest := by
  induction blocks generalizing header pre with
  | nil =>
    rw [flatMap_nil, map_nil, nil_append, readLoop_store hpre (by decide), map_nil, storeAll, andThen_assoc]
    rfl
  | cons block blocks ih =>
    have hblock := hblocks block (by simp)
    rw [flatMap_cons, map_append, append_assoc, readLoop_block hblock hpre, storeAll, andThen_assoc]
    congr 1
    funext header
    rw [ih (fun b hb => hblocks b (by simp [hb])) (blockRead_ne_nil hblock false), map_cons]

def finish (reader : Nat → Str → Option (Except ImfExn (Str × Str))) (n : Nat) (result : List (Str × Str) × Option Str) :
    Option (Except ImfExn Imf) :=
  match result with
  | (header, none) => some (.ok ⟨header, false, .inl []⟩)
  | (header, some body) => decodeBody (imfReadStreamWith reader n) header body

theorem imfReadStreamWith_eq {preLine : Str} {lines : List Str} (hlines : Str.lines text = preLine :: lines) :
    imfReadStreamWith reader (n + 1) text = andThen (readLoop (reader (n + 1)) [] preLine lines) (finish reader n) := by
  rw [imfReadStreamWith, hlines]
  dsimp only
  rcases readLoop (reader (n + 1)) [] preLine lines with _ | _ | ⟨header, _ | body⟩ <;> rfl

theorem imfReadStreamWith_blocks (hblocks : ∀ b ∈ block :: blocks, IsBlock b)
    (hlines : Str.lines text = ((block :: blocks).flatMap blockLines).map (· ++ ['\r']) ++ ['\r'] :: rest) :
    imfReadStreamWith reader (n + 1) text =
      andThen (storeAll (reader (n + 1)) [] (blockRead true block :: blocks.map (blockRead false))) fun header =>
        andThen (readLoop (reader (n + 1)) header [] rest) (finish reader n) := by
  rw [flatMap_cons, blockLines, map_append, map_cons, cons_append, cons_append, append_assoc] at hlines
  rw [imfReadStreamWith_eq hlines, readLoop_conts (hblocks block (by simp)).2.2, ← andThen_assoc]
  congr 1
  exact readLoop_blocks (fun b hb => hblocks b (by simp [hb])) (blockRead_ne_nil (hblocks block (by simp)) true)

/-! ### Reading what was written -/

def headerBlock (hl : Str × Str) : Str × List Str := ((headerLines hl).headD [], (headerLines hl).tail)

theorem headerBlock_spec (hfield : IsField hl) :
    IsBlock (headerBlock hl) ∧ blockLines (headerBlock hl) = headerLines hl ∧
      ∀ first, blockRead first (headerBlock hl) = lineRead first hl := by
  obtain ⟨tail, conts, hlines, hconts⟩ := headerLines_eq hfield
  have hcolon : trimRight (hl.1 ++ ':' :: ' ' :: tail) = hl.1 ++ ':' :: trimRight (' ' :: tail) :=
    Str.trimRight_append_cons (by decide)
  obtain ⟨c, name, hname⟩ := exists_cons_of_ne_nil hfield.1.1
  have hblock : headerBlock hl = (hl.1 ++ ':' :: ' ' :: tail, conts) := by
    rw [headerBlock, hlines]
    rfl
  rw [hblock]
  refine ⟨⟨?_, ?_, hconts⟩, hlines.symm, fun first => ?_⟩
  · rw [hcolon]
    simp
  · rw [hcolon, hname]
    simpa using isSpace_of_isName hfield.1 c (by simp [hname])
  · rw [lineRead, hlines]
    rfl

def readLines (header : List (Str × Str)) : List Str :=
  match header ++ [encodingField] with
  | [] => []
  | hl :: fields => lineRead true hl :: fields.map (lineRead false)

def bodyRead (body : Str) : Str :=
  match Str.lines body with
  | [] => []
  | line :: rest => line ++ Str.crlf ++ rest.flatMap (· ++ ['\n'])

theorem bodyRead_eq (hne : src ≠ []) :
    ∃ front nl, bodyRead (base64TextLines 78 src) = front ++ padding src ++ nl ∧
      front.filter (! isSpace ·) ++ padding src = base64Text src ∧
      (∃ c ∈ (front ++ padding src).getLast?, c ∉ "\r\n.".toList) ∧ (∀ c ∈ nl, c ∈ "\r\n.".toList) ∧ nl ≠ [] := by
  obtain ⟨front, hlines, hfilter, _, _, hlast⟩ := Str.base64TextLines_eq hne
  have hpadding : '\n' ∉ padding src := fun h => absurd (eq_of_mem_replicate h) (by decide)
  rw [hlines]
  rcases Str.line_cases front with hfront | ⟨l, t, rfl, hl⟩
  · have hone : Str.lines (front ++ padding src) = [front ++ padding src] :=
      Str.lines_single (by simp [hfront, hpadding])
    exact ⟨front, Str.crlf, by simp [bodyRead, hone], hfilter, hlast, by decide, by decide⟩
  · have hsplit : l ++ '\n' :: t ++ padding src = l ++ '\n' :: (t ++ padding src) := by simp
    have hnl : isSpace '\n' = true := by decide
    have hcr : isSpace '\r' = true := by decide
    refine ⟨l ++ Str.crlf ++ t, ['\n'], ?_, ?_, ?_, by decide, by decide⟩
    · rw [hsplit, bodyRead, Str.lines_append hl]
      show l ++ Str.crlf ++ (Str.lines (t ++ padding src)).flatMap (· ++ ['\n']) = _
      rw [Str.flatMap_lines]
      simp
    · rw [← hfilter]
      simp [Str.crlf, hnl, hcr]
    · obtain ⟨c, hc, hplain⟩ := hlast
      refine ⟨c, ?_, hplain⟩
      rw [hsplit] at hc
      have hend : l ++ Str.crlf ++ t ++ padding src = l ++ '\r' :: '\n' :: (t ++ padding src) := by simp [Str.crlf]
      rw [hend]
      simpa [getLast?_append, getLast?_cons] using hc

theorem length_lt_bodyRead (hne : src ≠ []) : src.length < (bodyRead (base64TextLines 78 src)).length := by
  obtain ⟨front, nl, hread, hfilter, _, _, hnl⟩ := bodyRead_eq hne
  have hlength := congrArg length hfilter
  have hle : (front.filter (! isSpace ·)).length ≤ front.length := length_filter_le _ _
  have hpos := length_pos_iff.mpr hnl
  rw [length_append, Str.length_base64Text] at hlength
  rw [hread, length_append, length_append]
  omega

theorem readLoop_body (hne : src ≠ []) :
    readLoop process header [] (Str.lines (base64TextLines 78 src)) =
      some (.ok (header, some (bodyRead (base64TextLines 78 src)))) := by
  obtain ⟨front, hlines, _, hplain, ⟨c, rest, hcons, hc⟩, _⟩ := Str.base64TextLines_eq hne
  have hchars : ∀ d ∈ front ++ padding src, isSpace d = false ∨ d = '\n' := by
    intro d hd
    rcases mem_append.mp hd with hd | hd
    · exact hplain d hd
    · exact .inl (by rw [eq_of_mem_replicate hd]; decide)
  -- the first line is not empty and has no blank in it
  obtain ⟨line, more, hsplit, hline⟩ : ∃ line more, Str.lines (front ++ padding src) = (c :: line) :: more ∧
      ∀ d ∈ c :: line, isSpace d = false := by
    rcases Str.line_cases (front ++ padding src) with hone | ⟨l, t, heq, hl⟩
    · refine ⟨rest, [], by rw [Str.lines_single hone, hcons], ?_⟩
      intro d hd
      rw [← hcons] at hd
      exact (hchars d hd).resolve_right fun h => hone (h ▸ hd)
    · cases l with
      | nil =>
        rw [hcons, nil_append, cons.injEq] at heq
        exact absurd heq.1 hc
      | cons d l =>
        obtain ⟨rfl, _⟩ : c = d ∧ rest = l ++ '\n' :: t := by
          rw [hcons, cons_append, cons.injEq] at heq
          exact heq
        refine ⟨l, Str.lines t, by rw [heq, Str.lines_append hl], ?_⟩
        intro d hd
        have hmem : d ∈ front ++ padding src := by
          rw [heq]
          exact mem_append_left _ hd
        exact (hchars d hmem).resolve_right fun h => hl (h ▸ hd)
  have htrim : trimRight (c :: line) = c :: line := by
    rw [Str.trimRight_eq_self_iff]
    intro d hd
    exact hline d (mem_of_getLast? hd)
  have hhead : (c :: line).head?.any isSpace = false := by simpa using hline c (by simp)
  rw [hlines, bodyRead, hsplit, readLoop, htrim, if_neg (by rw [hhead]; simp), if_neg (by simp), if_pos (by simp)]

theorem imfReadStreamWith_write {header : List (Str × Str)} (hfields : ∀ hl ∈ header, IsField hl) {body : Str} (hne : body ≠ []) :
    imfReadStreamWith reader (n + 1) (headerText header ++ "content-transfer-encoding: base64\r\n\r\n".toList ++
        base64TextLines 78 body) =
      andThen (storeAll (reader (n + 1)) [] (readLines header)) fun h =>
        decodeBody (imfReadStreamWith reader n) h (bodyRead (base64TextLines 78 body)) := by
  have hall := isField_of_mem_append hfields
  have hlines := lines_write hfields (base64TextLines 78 body)
  rw [readLines]
  cases hcons : header ++ [encodingField] with
  | nil => simp at hcons
  | cons hl fields =>
    rw [hcons] at hall hlines
    have hspec := fun hl' h => headerBlock_spec (hall hl' h)
    have hblocks : ∀ block ∈ headerBlock hl :: fields.map headerBlock, IsBlock block := by
      rw [← map_cons]
      intro block hblock
      obtain ⟨hl', h, rfl⟩ := mem_map.mp hblock
      exact (hspec hl' h).1
    have hsame : (hl :: fields).flatMap headerLines = (headerBlock hl :: fields.map headerBlock).flatMap blockLines := by
      rw [← map_cons, flatMap_map]
      exact (flatMap_congr fun hl' h => (hspec hl' h).2.1).symm
    have hread : fields.map (lineRead false) = (fields.map headerBlock).map (blockRead false) := by
      rw [map_map]
      exact map_congr_left fun hl' h => ((hspec hl' (by simp [h])).2.2 false).symm
    rw [hsame] at hlines
    rw [imfReadStreamWith_blocks hblocks hlines, (hspec hl (by simp)).2.2, ← hread]
    simp only [readLoop_body hne]
    rfl

end Imf

end Avbot
