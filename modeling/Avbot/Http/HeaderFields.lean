import Avbot.Http.Parsers

/-!
# Lists of headers

What `parse_http_headers` makes of header lines with any number of blanks around their values. A header is stored when the first character after its line has been seen; until then name and value are pending.
-/

namespace Avbot.Http

open List Scanner Char
open Str (crlf isSpace trim trimRight)

/-- A header line `name: value` with blanks before and after the value. -/
structure HeaderField where
  name : Str
  before : Nat
  value : Str
  after : Nat
  name_ne : name ≠ []
  name_chars : ∀ c ∈ name, c.isAlphanum = true ∨ c = '-' ∨ c = '_'
  value_chars : ∀ c ∈ value, isCtl c = false

namespace HeaderField

def spaced (f : HeaderField) : Str := List.replicate f.before ' ' ++ f.value ++ List.replicate f.after ' '

def text (f : HeaderField) : Str := f.name ++ ':' :: (f.spaced ++ crlf)

def pair (f : HeaderField) : Str × Str := (f.name, trim f.value)

end HeaderField

theorem foldl_concat (l r : Str) : r.foldl (fun l c => l ++ [c]) l = l ++ r := by
  induction r generalizing l with
  | nil => simp
  | cons c r ih => simp [ih]

theorem lt_of_isAlphanum {c : Char} (hc : c.isAlphanum = true) : c.toNat < 128 := by
  have hranges : (decide (c.val ≥ 65 ∧ c.val ≤ 90) || (decide (c.val ≥ 97) && decide (c.val ≤ 122)) ||
      (decide (c.val ≥ 48) && decide (c.val ≤ 57))) = true := hc
  simp only [Bool.or_eq_true, Bool.and_eq_true, decide_eq_true_eq, ge_iff_le, UInt32.le_iff_toNat_le, toNat_val] at hranges
  simp at hranges
  omega

theorem isToken_of_field {c : Char} (hc : c.isAlphanum = true ∨ c = '-' ∨ c = '_') :
    isToken c = true ∧ c ≠ ':' ∧ isSpace c = false := by
  have hascii : ∀ n < 128, ((ofNat n).isAlphanum = true ∨ ofNat n = '-' ∨ ofNat n = '_') →
      isToken (ofNat n) = true ∧ ofNat n ≠ ':' ∧ isSpace (ofNat n) = false := by
    decide
  have hlt : c.toNat < 128 := by
    rcases hc with halnum | rfl | rfl
    · exact lt_of_isAlphanum halnum
    · decide
    · decide
  have hall := hascii c.toNat hlt
  rw [ofNat_toNat] at hall
  exact hall hc

theorem trimRight_replicate (n : Nat) : trimRight (replicate n ' ') = [] :=
  rdropWhile_eq_nil_iff.mpr fun c hc => by rw [eq_of_mem_replicate hc]; rfl

theorem trim_blanks (before after : Nat) (s : Str) :
    trim (replicate before ' ' ++ s ++ replicate after ' ') = trim s := by
  have hblanks : ∀ c ∈ replicate before ' ', isSpace c = true :=
    fun c hc => by rw [eq_of_mem_replicate hc]; rfl
  rw [trim, Str.trimRight_append_of_nil (trimRight_replicate after), trim]
  by_cases hs : trimRight s = []
  · rw [Str.trimRight_append_of_nil hs, trimRight_replicate, hs]
  · rw [Str.trimRight_append_of_ne_nil hs, Str.trimLeft, dropWhile_append_of_pos hblanks]
    rfl

theorem trim_eq_self_of_forall {s : Str} (hs : ∀ c ∈ s, isSpace c = false) : trim s = s := by
  have hright : trimRight s = s := Str.trimRight_eq_self_iff.mpr fun c hc => hs c (mem_of_getLast? hc)
  rw [trim, hright, Str.trimLeft, dropWhile_eq_self_iff]
  intro hpos
  simpa using hs _ (getElem_mem hpos)

namespace HeaderField

variable (f : HeaderField)

theorem spaced_chars : ∀ c ∈ f.spaced, isCtl c = false := by
  intro c hc
  rcases mem_append.mp hc with hfront | hafter
  · rcases mem_append.mp hfront with hbefore | hvalue
    · rw [eq_of_mem_replicate hbefore]
      rfl
    · exact f.value_chars c hvalue
  · rw [eq_of_mem_replicate hafter]
    rfl

theorem trim_name : trim f.name = f.name :=
  trim_eq_self_of_forall fun c hc => (isToken_of_field (f.name_chars c hc)).2.2

theorem commit_headers (known : KnownHeaders) (stored : List (Str × Str)) :
    (Headers.mk known stored f.name f.spaced).commit.headers = stored ++ [f.pair] := by
  rw [Headers.commit, f.trim_name, spaced, trim_blanks]
  rfl

end HeaderField

variable {name value : Str} {c : Char}

theorem runs_headerName (hname : ∀ c ∈ name, c.isAlphanum = true ∨ c = '-' ∨ c = '_') (h : Headers) :
    runs headersStep (.headerName, h) name = some (.headerName, { h with name := h.name ++ name }) := by
  rw [← foldl_concat]
  refine runs_of_forall (f := fun n => (HeadersState.headerName, { h with name := n })) name _ ?_
  intro c hc n
  obtain ⟨htoken, hcolon, _⟩ := isToken_of_field (hname c hc)
  simp [headersStep, htoken, hcolon]

theorem ne_cr_of_isCtl (hctl : isCtl c = false) : c ≠ '\r' := by
  rintro rfl
  exact absurd hctl (by decide)

theorem runs_headerValue (hvalue : ∀ c ∈ value, isCtl c = false) (h : Headers) :
    runs headersStep (.headerValue, h) value = some (.headerValue, { h with value := h.value ++ value }) := by
  rw [← foldl_concat]
  refine runs_of_forall (f := fun v => (HeadersState.headerValue, { h with value := v })) value _ ?_
  intro c hc v
  simp [headersStep, hvalue c hc, ne_cr_of_isCtl (hvalue c hc)]

theorem runs_spaced (hvalue : ∀ c ∈ value, isCtl c = false) (h : Headers) :
    runs headersStep (.spaceBeforeHeaderValue, h) (value ++ crlf) =
      some (.headerLineStart, { h with value := h.value ++ value }) := by
  cases value with
  | nil =>
    rw [nil_append, append_nil]
    rfl
  | cons c value =>
    have hctl := hvalue c mem_cons_self
    have hfirst : headersStep (.spaceBeforeHeaderValue, h) c =
        .next (.headerValue, { h with value := h.value ++ [c] }) := by
      simp [headersStep, hctl, ne_cr_of_isCtl hctl]
    rw [cons_append, runs_cons hfirst, runs_append (runs_headerValue (fun d hd => hvalue d (mem_cons_of_mem c hd)) _)]
    simp [runs, headersStep, crlf]

theorem HeaderField.runs_text (f : HeaderField) {start : HeadersState × Headers} {known : KnownHeaders}
    {stored : List (Str × Str)}
    (hfirst : ∀ c, (c.isAlphanum = true ∨ c = '-' ∨ c = '_') →
      headersStep start c = .next (.headerName, ⟨known, stored, [c], []⟩)) :
    runs headersStep start f.text = some (.headerLineStart, ⟨known, stored, f.name, f.spaced⟩) := by
  obtain ⟨c, name, hname⟩ := exists_cons_of_ne_nil f.name_ne
  have hchars := f.name_chars
  rw [hname] at hchars
  have hcolon : ∀ h, headersStep (.headerName, h) ':' = .next (.spaceBeforeHeaderValue, h) := fun _ => rfl
  rw [HeaderField.text, hname, cons_append, runs_cons (hfirst c (hchars c mem_cons_self)),
    runs_append (runs_headerName (fun d hd => hchars d (mem_cons_of_mem c hd)) _), runs_cons (hcolon _),
    runs_spaced f.spaced_chars]
  rfl

theorem headersStep_first_line (hc : c.isAlphanum = true ∨ c = '-' ∨ c = '_') (known : KnownHeaders)
    (stored : List (Str × Str)) :
    headersStep (.firstHeaderLineStart, ⟨known, stored, [], []⟩) c = .next (.headerName, ⟨known, stored, [c], []⟩) := by
  obtain ⟨htoken, _, hspace⟩ := isToken_of_field hc
  have hcr : c ≠ '\r' := by rintro rfl; exact absurd hspace (by decide)
  simp [headersStep, hcr, htoken]

theorem headersStep_next_line (hc : c.isAlphanum = true ∨ c = '-' ∨ c = '_') (h : Headers) :
    headersStep (.headerLineStart, h) c = .next (.headerName, ⟨h.commit.known, h.commit.headers, [c], []⟩) := by
  obtain ⟨htoken, _, hspace⟩ := isToken_of_field hc
  have hcr : c ≠ '\r' := by rintro rfl; exact absurd hspace (by decide)
  have hblank : c ≠ ' ' := by rintro rfl; exact absurd hspace (by decide)
  have htab : c ≠ '\t' := by rintro rfl; exact absurd hspace (by decide)
  simp [headersStep, hcr, hblank, htab, htoken, Headers.commit]

theorem scan_fields (fields : List HeaderField) (h : Headers) (rest : Str) :
    ∃ h', scan headersStep (.headerLineStart, h) (fields.flatMap HeaderField.text ++ (crlf ++ rest)) = some (h', rest) ∧
      h'.headers = h.commit.headers ++ fields.map HeaderField.pair := by
  induction fields generalizing h with
  | nil => exact ⟨h.commit, rfl, by simp⟩
  | cons f fields ih =>
    obtain ⟨h', hscan, hstored⟩ := ih ⟨h.commit.known, h.commit.headers, f.name, f.spaced⟩
    refine ⟨h', ?_, ?_⟩
    · rw [flatMap_cons, append_assoc, scan_append (f.runs_text fun c hc => headersStep_next_line hc h), hscan]
    · rw [hstored, f.commit_headers, append_assoc]
      rfl

theorem parseHttpHeaders_stored (fields : List HeaderField) (known : KnownHeaders) (stored : List (Str × Str)) (rest : Str) :
    ∃ h, parseHttpHeaders known stored (fields.flatMap HeaderField.text ++ (crlf ++ rest)) = some (h, rest) ∧
      h.headers = stored ++ fields.map HeaderField.pair := by
  cases fields with
  | nil => exact ⟨⟨known, stored, [], []⟩, rfl, by simp⟩
  | cons f fields =>
    obtain ⟨h, hscan, hstored⟩ := scan_fields fields ⟨known, stored, f.name, f.spaced⟩ rest
    refine ⟨h, ?_, ?_⟩
    · rw [parseHttpHeaders, flatMap_cons, append_assoc,
        scan_append (f.runs_text fun c hc => headersStep_first_line hc known stored), hscan]
    · rw [hstored, f.commit_headers, append_assoc]
      rfl

theorem headersEqual_of_ne {a b : Str} (ha : headersEqual name a = true) (hab : headersEqual a b = false) :
    headersEqual name b = false := by
  unfold headersEqual at ha hab ⊢
  rw [of_decide_eq_true ha]
  exact hab

def lastValue (name : Str) (headers : List (Str × Str)) : Option Str :=
  (headers.filter fun o => headersEqual o.1 name).getLast?.map Prod.snd

theorem foldl_checkHeader_last {field : KnownHeaders → Str}
    (hfield : ∀ known (o : Str × Str), field (checkHeader known o.1 o.2) = if headersEqual o.1 name then o.2 else field known)
    (headers : List (Str × Str)) (known : KnownHeaders) :
    field (headers.foldl (fun known o => checkHeader known o.1 o.2) known) = (lastValue name headers).getD (field known) := by
  induction headers using reverseRecOn with
  | nil => rfl
  | append_singleton headers o ih =>
    rw [foldl_append, foldl_cons, foldl_nil, hfield, ih]
    unfold lastValue
    rw [filter_append, filter_singleton]
    cases hname : headersEqual o.1 name with
    | true => simp
    | false => simp

theorem checkHeader_contentType (known : KnownHeaders) (o : Str × Str) :
    (checkHeader known o.1 o.2).contentType = if headersEqual o.1 "Content-Type".toList then o.2 else known.contentType := by
  unfold checkHeader
  split
  · rfl
  · repeat' split
    all_goals rfl

theorem checkHeader_location (known : KnownHeaders) (o : Str × Str) :
    (checkHeader known o.1 o.2).location = if headersEqual o.1 "Location".toList then o.2 else known.location := by
  unfold checkHeader
  by_cases htype : headersEqual o.1 "Content-Type".toList = true
  · rw [if_pos htype, headersEqual_of_ne htype (by decide)]
    rfl
  rw [if_neg htype]
  by_cases hlength : headersEqual o.1 "Content-Length".toList = true
  · rw [if_pos hlength, headersEqual_of_ne hlength (by decide)]
    rfl
  rw [if_neg hlength]
  split
  · rfl
  · repeat' split
    all_goals rfl

/-- The parser stores the names and values of a list of header lines in order. The two known values are those of the last headers with their names. -/
theorem parseHttpHeaders_fields (fields : List HeaderField) (known : KnownHeaders) (stored : List (Str × Str)) (rest : Str) :
    ∃ h, parseHttpHeaders known stored (fields.flatMap HeaderField.text ++ (crlf ++ rest)) = some (h, rest) ∧
      h.headers = stored ++ fields.map HeaderField.pair ∧
      h.known.contentType = (lastValue "Content-Type".toList (fields.map HeaderField.pair)).getD known.contentType ∧
      h.known.location = (lastValue "Location".toList (fields.map HeaderField.pair)).getD known.location := by
  obtain ⟨h, hparse, hstored⟩ := parseHttpHeaders_stored fields known stored rest
  obtain ⟨more, hmore, hknown⟩ := scan_headers_known hparse
  obtain rfl : more = fields.map HeaderField.pair := append_cancel_left (hmore.symm.trans hstored)
  refine ⟨h, hparse, hstored, ?_, ?_⟩
  · rw [hknown, foldl_checkHeader_last checkHeader_contentType]
  · rw [hknown, foldl_checkHeader_last checkHeader_location]

end Avbot.Http
