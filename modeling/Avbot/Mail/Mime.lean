import Avbot.Mail.ImfRoundTrip

/-!
# `mime_read_stream`

The outer loop looks for the first line with the boundary, the inner one collects lines into `part` and reads what was collected as a mail at each further boundary, whether that is the last one or not.
-/

namespace Avbot

open List
open Str (isSpace trim trimRight)

namespace Imf

/-- The texts of the parts, read one after the other. -/
def readParts (read : Str → Option (Except ImfExn Imf)) : List Str → Option (Except ImfExn (List Imf))
  | [] => some (.ok [])
  | part :: parts =>
    match read part with
    | some (.ok imf) => (readParts read parts).map fun r => r.map (imf :: ·)
    | some (.error e) => some (.error e)
    | none => none

def appended (mimecontent : List Imf) (r : Option (Except ImfExn (List Imf))) : Option (Except ImfExn (List Imf)) :=
  r.map fun r => r.map (mimecontent ++ ·)

def linesText (lines : List Str) : Str := lines.flatMap (· ++ ['\n'])

variable {read read' : Str → Option (Except ImfExn Imf)} {boundary line part : Str} {mimecontent : List Imf}
  {lines rest : List Str}

theorem readParts_cons (part : Str) (parts : List Str) :
    readParts read (part :: parts) = andThen (read part) fun imf => appended [imf] (readParts read parts) := by
  rw [readParts]
  rcases read part with _ | _ | imf <;> rfl

theorem appended_appended (l m : List Imf) (r : Option (Except ImfExn (List Imf))) :
    appended l (appended m r) = appended (l ++ m) r := by
  rcases r with _ | _ | r <;> simp [appended, Except.map]

theorem appended_andThen (l : List Imf) (r : Option (Except ImfExn Imf)) (f : Imf → Option (Except ImfExn (List Imf))) :
    appended l (andThen r f) = andThen r fun imf => appended l (f imf) := by
  rcases r with _ | _ | imf <;> rfl

theorem appended_ok (l m : List Imf) : appended l (some (.ok m)) = some (.ok (l ++ m)) := rfl

/-! ### The loops on the lines of a multipart body -/

theorem partLoop_delimiter (hline : IsDelimiter boundary line) :
    partLoop read boundary mimecontent part (line :: rest) =
      andThen (read part) fun imf => partLoop read boundary (mimecontent ++ [imf]) [] rest := by
  rw [partLoop, if_pos hline]
  rcases read part with _ | _ | imf <;> rfl

theorem partLoop_other (hline : ¬ IsDelimiter boundary line) :
    partLoop read boundary mimecontent part (line :: rest) =
      partLoop read boundary mimecontent (part ++ (line ++ ['\n'])) rest := by
  rw [partLoop, if_neg hline]

theorem partLoop_append (hlines : ∀ line ∈ lines, ¬ IsDelimiter boundary line) :
    partLoop read boundary mimecontent part (lines ++ rest) =
      partLoop read boundary mimecontent (part ++ linesText lines) rest := by
  induction lines generalizing part with
  | nil => simp [linesText]
  | cons line lines ih =>
    rw [cons_append, partLoop_other (hlines line (by simp)), ih fun l hl => hlines l (by simp [hl]), linesText, linesText,
      flatMap_cons, append_assoc]

section Stream

variable {epilogue preamble : List Str} {opening closing : Str} {parts : List (List Str)}

theorem partLoop_epilogue (hepilogue : ∀ line ∈ epilogue, ¬ IsDelimiter boundary line) :
    partLoop read boundary mimecontent part epilogue = some (.ok mimecontent) := by
  have happend := @partLoop_append read boundary part mimecontent epilogue [] hepilogue
  rw [append_nil] at happend
  rw [happend, partLoop]

theorem partLoop_parts (hopening : IsDelimiter boundary opening) (hclosing : IsDelimiter boundary closing)
    {first : List Str} (hparts : ∀ part ∈ first :: parts, ∀ line ∈ part, ¬ IsDelimiter boundary line)
    (hepilogue : ∀ line ∈ epilogue, ¬ IsDelimiter boundary line) :
    partLoop read boundary mimecontent [] (first ++ (parts.flatMap (opening :: ·) ++ closing :: epilogue)) =
      appended mimecontent (readParts read ((first :: parts).map linesText)) := by
  induction parts generalizing first mimecontent with
  | nil =>
    rw [partLoop_append (hparts first (by simp)), flatMap_nil, nil_append, nil_append, partLoop_delimiter hclosing,
      map_cons, readParts_cons, appended_andThen]
    congr 1
    funext imf
    rw [partLoop_epilogue hepilogue]
    rfl
  | cons second parts ih =>
    rw [partLoop_append (hparts first (by simp)), flatMap_cons, cons_append, cons_append, nil_append,
      partLoop_delimiter hopening, map_cons, readParts_cons, appended_andThen]
    congr 1
    funext imf
    rw [append_assoc, ih fun part hpart => hparts part (by simp_all), appended_appended]

theorem mimeLoop_preamble (hpreamble : ∀ line ∈ preamble, ¬ IsDelimiter boundary line) :
    mimeLoop read boundary mimecontent (preamble ++ rest) = mimeLoop read boundary mimecontent rest := by
  induction preamble with
  | nil => rfl
  | cons line preamble ih =>
    rw [cons_append, mimeLoop, if_neg fun h => hpreamble line (by simp) (.inl h), ih fun l hl => hpreamble l (by simp [hl])]

theorem mimeLoop_eq (hopening : trim opening = "--".toList ++ boundary)
    (hclosing : trim closing = "--".toList ++ boundary ++ "--".toList)
    (hpreamble : ∀ line ∈ preamble, ¬ IsDelimiter boundary line)
    (hparts : ∀ part ∈ parts, ∀ line ∈ part, ¬ IsDelimiter boundary line)
    (hepilogue : ∀ line ∈ epilogue, ¬ IsDelimiter boundary line) :
    mimeLoop read boundary mimecontent (preamble ++ (parts.flatMap (opening :: ·) ++ closing :: epilogue)) =
      appended mimecontent (readParts read (parts.map linesText)) := by
  rw [mimeLoop_preamble hpreamble]
  cases parts with
  | nil =>
    -- the closing boundary opens nothing
    have hne : ¬ trim closing = "--".toList ++ boundary := by
      rw [hclosing]
      intro h
      have hlength := congrArg List.length h
      simp at hlength
    have hnone := @mimeLoop_preamble read boundary mimecontent [] epilogue hepilogue
    rw [append_nil] at hnone
    rw [flatMap_nil, nil_append, mimeLoop, if_neg hne, hnone, mimeLoop, map_nil, readParts, appended_ok, append_nil]
  | cons first parts =>
    rw [flatMap_cons, cons_append, cons_append, mimeLoop, if_pos hopening, append_assoc,
      partLoop_parts (.inl hopening) (.inr hclosing) hparts hepilogue]

theorem trim_opening (hboundary : ∀ c ∈ boundary, isSpace c = false) :
    trim ("--".toList ++ boundary) = "--".toList ++ boundary := by
  have hright : trimRight ("--".toList ++ boundary) = "--".toList ++ boundary := by
    rw [trimRight, rdropWhile_eq_self_iff]
    intro hne hspace
    rcases mem_append.mp (getLast_mem hne) with hlast | hlast
    · rw [show (("--".toList ++ boundary).getLast hne) = '-' by simpa using hlast] at hspace
      exact absurd hspace (by decide)
    · rw [hboundary _ hlast] at hspace
      exact absurd hspace (by decide)
  rw [trim, hright]
  rfl

theorem trim_closing (boundary : Str) :
    trim ("--".toList ++ boundary ++ "--".toList) = "--".toList ++ boundary ++ "--".toList := by
  have hright : trimRight ("--".toList ++ boundary ++ "--".toList) = "--".toList ++ boundary ++ "--".toList := by
    rw [Str.trimRight_append_of_ne_nil (by decide)]
    rfl
  rw [trim, hright]
  rfl

end Stream

/-! ### More rounds give the same result -/

section Rounds

variable {m n : Nat} {header : List (Str × Str)} {body text : Str} {r : Except ImfExn Imf}

theorem readLoop_mono {process process' : Str → Option (Except ImfExn (Str × Str))}
    (hmono : ∀ line r, process line = some r → process' line = some r) {preLine : Str}
    {r : Except ImfExn (List (Str × Str) × Option Str)} (hread : readLoop process header preLine lines = some r) :
    readLoop process' header preLine lines = some r := by
  induction lines generalizing header preLine with
  | nil => exact hread
  | cons line rest ih =>
    rw [readLoop] at hread ⊢
    by_cases hfold : (trimRight line).head?.any isSpace
    · rw [if_pos hfold] at hread ⊢
      exact ih hread
    · rw [if_neg hfold] at hread ⊢
      by_cases hpre : preLine ≠ []
      · rw [if_pos hpre] at hread ⊢
        cases hprocess : process preLine with
        | none => simp [hprocess] at hread
        | some entry =>
          rw [hmono _ _ hprocess]
          rw [hprocess] at hread
          rcases entry with (_ | _ | _ | _ | _ | _ | _) | entry <;> first | exact ih hread | exact hread
      · rw [if_neg hpre] at hread ⊢
        by_cases hline : trimRight line ≠ []
        · rw [if_pos hline] at hread ⊢
          exact hread
        · rw [if_neg hline] at hread ⊢
          exact ih hread

section

variable (hmono : ∀ text r, read text = some r → read' text = some r)

include hmono

theorem partLoop_mono {r : Except ImfExn (List Imf)} (hread : partLoop read boundary mimecontent part lines = some r) :
    partLoop read' boundary mimecontent part lines = some r := by
  induction lines generalizing mimecontent part with
  | nil => exact hread
  | cons line rest ih =>
    by_cases hline : IsDelimiter boundary line
    · rw [partLoop_delimiter hline] at hread ⊢
      cases hpart : read part with
      | none => simp [hpart, andThen] at hread
      | some imf =>
        rw [hpart] at hread
        rw [hmono part imf hpart]
        cases imf with
        | error e => exact hread
        | ok imf => exact ih hread
    · rw [partLoop_other hline] at hread ⊢
      exact ih hread

theorem mimeLoop_mono {r : Except ImfExn (List Imf)}
    (hread : mimeLoop read boundary mimecontent lines = some r) : mimeLoop read' boundary mimecontent lines = some r := by
  induction lines with
  | nil => exact hread
  | cons line rest ih =>
    rw [mimeLoop] at hread ⊢
    by_cases hline : trim line = "--".toList ++ boundary
    · rw [if_pos hline] at hread ⊢
      exact partLoop_mono hmono hread
    · rw [if_neg hline] at hread ⊢
      exact ih hread

theorem decodeBody_mono (hread : decodeBody read header body = some r) : decodeBody read' header body = some r := by
  simp only [decodeBody] at hread ⊢
  split at hread
  · simp only [imfDecodeMultipart] at hread ⊢
    split at hread
    · obtain ⟨l, hl, hlr⟩ := Option.map_eq_some_iff.mp hread
      rw [mimeReadStream, mimeLoop_mono hmono hl]
      exact congrArg some hlr
    · exact hread
  · exact hread

end

theorem imfReadStream_succ (hread : imfReadStream n text = some r) : imfReadStream (n + 1) text = some r := by
  induction n generalizing text r with
  | zero => simp [imfReadStream, imfReadStreamWith] at hread
  | succ n ih =>
    obtain ⟨preLine, lines, hlines⟩ := exists_cons_of_ne_nil (Str.lines_ne_nil text)
    rw [imfReadStream, imfReadStreamWith_eq hlines] at hread ⊢
    cases hloop : readLoop (processLine (n + 1)) [] preLine lines with
    | none => simp [hloop, andThen] at hread
    | some result =>
      rw [readLoop_mono (fun _ _ => processLine_mono (Nat.le_succ (n + 1))) hloop]
      rw [hloop] at hread
      rcases result with e | ⟨header, _ | body⟩
      · exact hread
      · exact hread
      · exact decodeBody_mono (fun text r => ih) hread

theorem imfReadStream_mono (hmn : m ≤ n) (hread : imfReadStream m text = some r) : imfReadStream n text = some r := by
  induction hmn with
  | refl => exact hread
  | step _ ih => exact imfReadStream_succ ih

theorem readParts_of_forall {parts : List Str} {results : List Imf}
    (hresults : List.Forall₂ (fun part imf => read part = some (.ok imf)) parts results) :
    readParts read parts = some (.ok results) := by
  induction hresults with
  | nil => rfl
  | cons hpart _ ih =>
    rw [readParts_cons, hpart, ih]
    rfl

theorem exists_rounds {parts : List Str} {results : List Imf}
    (hresults : List.Forall₂ (fun part imf => ∃ n, imfReadStream n part = some (.ok imf)) parts results) :
    ∃ n, List.Forall₂ (fun part imf => imfReadStream n part = some (.ok imf)) parts results := by
  induction hresults with
  | nil => exact ⟨0, .nil⟩
  | cons hpart _ ih =>
    obtain ⟨k, hk⟩ := hpart
    obtain ⟨l, hl⟩ := ih
    exact ⟨max k l, .cons (imfReadStream_mono (Nat.le_max_left k l) hk)
      (hl.imp fun _ _ => imfReadStream_mono (Nat.le_max_right k l))⟩

end Rounds

/-- What stands between the boundaries is read part by part and appended in order, and all parts are there as soon as each of them can be read. -/
theorem mimeReadStream_appends {boundary : Str}
    (hboundary : ∀ c ∈ boundary, isSpace c = false) {preamble epilogue : List Str} {parts : List (List Str)}
    (hpreamble : ∀ line ∈ preamble, ¬ IsDelimiter boundary line)
    (hparts : ∀ part ∈ parts, ∀ line ∈ part, ¬ IsDelimiter boundary line)
    (hepilogue : ∀ line ∈ epilogue, ¬ IsDelimiter boundary line) {text : Str}
    (hlines : Str.lines text = preamble ++ (parts.flatMap (("--".toList ++ boundary) :: ·) ++
      ("--".toList ++ boundary ++ "--".toList) :: epilogue)) (mimecontent : List Imf) :
    (∀ n, mimeReadStream (imfReadStream n) mimecontent text boundary =
        appended mimecontent (readParts (imfReadStream n) (parts.map linesText))) ∧
      ∀ results : List Imf,
        List.Forall₂ (fun part imf => ∃ n, imfReadStream n part = some (.ok imf)) (parts.map linesText) results →
          ∃ n, mimeReadStream (imfReadStream n) mimecontent text boundary = some (.ok (mimecontent ++ results)) := by
  have hall : ∀ n, mimeReadStream (imfReadStream n) mimecontent text boundary =
      appended mimecontent (readParts (imfReadStream n) (parts.map linesText)) := by
    intro n
    rw [mimeReadStream, hlines, mimeLoop_eq (trim_opening hboundary) (trim_closing boundary) hpreamble hparts hepilogue]
  refine ⟨hall, fun results hresults => ?_⟩
  obtain ⟨n, hn⟩ := exists_rounds hresults
  refine ⟨n, ?_⟩
  rw [hall n, readParts_of_forall hn, appended_ok]

/-- Two parts, of which the second is empty. -/
theorem mimeReadStream_two_parts :
    mimeReadStream (imfReadStream 2) [] "pre\n--b\na: 1\n\nx\n--b\n--b--\nend".toList "b".toList =
      appended [] (readParts (imfReadStream 2) ["a: 1\n\nx\n".toList, []]) :=
  (@mimeReadStream_appends "b".toList (by decide) ["pre".toList] ["end".toList]
    [["a: 1".toList, [], "x".toList], []] (by decide) (by decide) (by decide) _ (by decide) []).1 2

end Imf

end Avbot
