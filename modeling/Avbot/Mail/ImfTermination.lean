import Avbot.Mail.Mime

/-!
# Reading a mail ends

`imf_read_stream` reads the parts of a multipart body as mails again. Each text that is read on the next level is shorter than the one it came from: the reader adds two characters, and a part has lost the two lines with the boundaries around it. `process_line` stands for any function that returns.
-/

namespace Avbot

open List

namespace Imf

theorem length_linesText_cons (line : Str) (lines : List Str) :
    (linesText (line :: lines)).length = line.length + 1 + (linesText lines).length := by
  simp only [linesText, flatMap_cons, length_append, length_cons, length_nil]

theorem length_linesText_lines (text : Str) : (linesText (Str.lines text)).length = text.length + 1 := by
  rw [linesText, Str.flatMap_lines, length_append]
  rfl

variable {lines : List Str} {boundary : Str}

theorem length_readLoop {process : Str → Option (Except ImfExn (Str × Str))} {header h : List (Str × Str)} {preLine body : Str}
    (hread : readLoop process header preLine lines = some (.ok (h, some body))) :
    body.length ≤ (linesText lines).length + 1 := by
  induction lines generalizing header preLine with
  | nil => simp [readLoop] at hread
  | cons line rest ih =>
    have hrest := length_linesText_cons line rest
    have hline := Str.trimRight_length_le line
    rw [readLoop] at hread
    by_cases hfold : (Str.trimRight line).head?.any Str.isSpace
    · rw [if_pos hfold] at hread
      have := ih hread
      omega
    · rw [if_neg hfold] at hread
      by_cases hpre : preLine ≠ []
      · rw [if_pos hpre] at hread
        split at hread
        · simp at hread
        · have := ih hread
          omega
        · have := ih hread
          omega
        · simp at hread
      · rw [if_neg hpre] at hread
        by_cases hne : Str.trimRight line ≠ []
        · rw [if_pos hne] at hread
          simp only [Option.some.injEq, Except.ok.injEq, Prod.mk.injEq] at hread
          have hcrlf : Str.crlf.length = 2 := rfl
          have hflat : rest.flatMap (· ++ ['\n']) = linesText rest := rfl
          rw [← hread.2, hflat, length_append, length_append]
          omega
        · rw [if_neg hne] at hread
          have := ih hread
          omega

section Ends

variable {process : Nat → Str → Option (Except ImfExn (Str × Str))}

theorem readLoop_returns {process : Str → Option (Except ImfExn (Str × Str))} (hprocess : ∀ line, process line ≠ none)
    (header : List (Str × Str)) (preLine : Str) (lines : List Str) : readLoop process header preLine lines ≠ none := by
  induction lines generalizing header preLine with
  | nil => simp [readLoop]
  | cons line rest ih =>
    rw [readLoop]
    split
    · exact ih _ _
    · split
      · rcases hline : process preLine with _ | (_ | _ | _ | _ | _ | _ | _) | entry
        · exact absurd hline (hprocess preLine)
        all_goals first | exact ih _ _ | simp
      · split
        · simp
        · exact ih _ _

variable {read : Str → Option (Except ImfExn Imf)} {text : Str}

theorem length_trim_le (line : Str) : (Str.trim line).length ≤ line.length :=
  (dropWhile_suffix _).length_le.trans (Str.trimRight_length_le line)

theorem IsDelimiter.length {line : Str} (hline : IsDelimiter boundary line) : 2 ≤ line.length := by
  have htrim := length_trim_le line
  rcases hline with h | h <;> rw [h] at htrim <;> simp at htrim <;> omega

theorem partLoop_returns {mimecontent : List Imf} {part : Str}
    (hread : ∀ p : Str, p.length + 3 ≤ part.length + (linesText lines).length → read p ≠ none) :
    partLoop read boundary mimecontent part lines ≠ none := by
  induction lines generalizing mimecontent part with
  | nil => simp [partLoop]
  | cons line rest ih =>
    have hrest := length_linesText_cons line rest
    by_cases hline : IsDelimiter boundary line
    · have hlong := hline.length
      have hpart := hread part (by omega)
      rw [partLoop_delimiter hline]
      rcases hresult : read part with _ | _ | imf
      · exact absurd hresult hpart
      · simp [andThen]
      · exact ih fun p hp => hread p (by rw [length_nil] at hp; omega)
    · rw [partLoop_other hline]
      apply ih
      intro p hp
      apply hread p
      simp only [length_append, length_cons, length_nil] at hp
      omega

theorem mimeLoop_returns {mimecontent : List Imf}
    (hread : ∀ p : Str, p.length + 6 ≤ (linesText lines).length → read p ≠ none) :
    mimeLoop read boundary mimecontent lines ≠ none := by
  induction lines with
  | nil => simp [mimeLoop]
  | cons line rest ih =>
    have hrest := length_linesText_cons line rest
    rw [mimeLoop]
    split
    next hline =>
      have hlong := IsDelimiter.length (.inl hline)
      apply partLoop_returns
      intro p hp
      rw [length_nil] at hp
      exact hread p (by omega)
    next => exact ih fun p hp => hread p (by omega)

theorem mimeReadStream_returns (hread : ∀ part, part.length + 5 ≤ text.length → read part ≠ none)
    (mimecontent : List Imf) (boundary : Str) : mimeReadStream read mimecontent text boundary ≠ none := by
  apply mimeLoop_returns
  intro part hpart
  rw [length_linesText_lines] at hpart
  exact hread part (by omega)

theorem imfDecodeMultipart_returns
    (hread : ∀ part, part.length + 5 ≤ text.length → read part ≠ none) (header : List (Str × Str)) :
    imfDecodeMultipart read header text ≠ none := by
  simp only [imfDecodeMultipart]
  split
  · simp only [ne_eq, Option.map_eq_none_iff]
    exact mimeReadStream_returns hread [] _
  · simp

theorem decodeBody_returns {header : List (Str × Str)} {body : Str}
    (hread : ∀ part, part.length + 5 ≤ body.length → read part ≠ none) : decodeBody read header body ≠ none := by
  simp only [decodeBody]
  split
  next decoded hdecoded =>
    have hle : decoded.length ≤ body.length := by
      split at hdecoded
      · exact Str.length_base64Decode_le hdecoded
      · rw [Except.ok.injEq] at hdecoded
        rw [hdecoded]
    exact imfDecodeMultipart_returns (fun part hpart => hread part (by omega)) _
  next => simp

theorem imfReadStreamWith_returns (hprocess : ∀ n line, process n line ≠ none) {n : Nat} (hn : text.length < n) :
    imfReadStreamWith process n text ≠ none := by
  induction n generalizing text with
  | zero => omega
  | succ n ih =>
    have hlines := length_linesText_lines text
    rw [imfReadStreamWith]
    cases hsplit : Str.lines text with
    | nil => simp [hsplit, linesText] at hlines
    | cons preLine lines =>
      rw [hsplit, length_linesText_cons] at hlines
      simp only
      rcases hloop : readLoop (process (n + 1)) [] preLine lines with _ | _ | ⟨header, _ | body⟩
      · exact absurd hloop (readLoop_returns (hprocess (n + 1)) _ _ _)
      · simp
      · simp
      · have hbody := length_readLoop hloop
        apply decodeBody_returns
        intro part hpart
        exact ih (by omega)

/-- More rounds than the text has characters are enough for each of the three functions. -/
theorem reading_returns (hprocess : ∀ n line, process n line ≠ none) {n : Nat} {text : Str} (hn : text.length < n) :
    imfReadStreamWith process n text ≠ none ∧
      (∀ header, imfDecodeMultipart (imfReadStreamWith process n) header text ≠ none) ∧
      ∀ mimecontent boundary, mimeReadStream (imfReadStreamWith process n) mimecontent text boundary ≠ none := by
  have hread : ∀ part : Str, part.length + 5 ≤ text.length → imfReadStreamWith process n part ≠ none :=
    fun part hpart => imfReadStreamWith_returns hprocess (by omega)
  exact ⟨imfReadStreamWith_returns hprocess hn, imfDecodeMultipart_returns hread, mimeReadStream_returns hread⟩

end Ends

def processPlain (_ : Nat) (line : Str) : Option (Except ImfExn (Str × Str)) :=
  match headerRegex.full (Str.cStr line) with
  | some what => some (.ok (Str.toLower (what.getD 1 []), what.getD 2 []))
  | none => some (.error .badExpression)

theorem processPlain_returns (n : Nat) (line : Str) : processPlain n line ≠ none := by
  rw [processPlain]
  split <;> simp

/-- A mail whose part declares the same boundary again. -/
theorem reading_returns_nested :
    imfReadStreamWith processPlain 200
      ("content-type: multipart/mixed; boundary=\"b\"\n\nx\n--b\n" ++
        "content-type: multipart/mixed; boundary=\"b\"\n\nx\n--b\ny\n--b--\n--b--\n").toList ≠ none :=
  (reading_returns processPlain_returns (by simp)).1

end Imf

end Avbot
