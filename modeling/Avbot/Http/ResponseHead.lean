import Avbot.Http.HeaderFields
import Avbot.Httpd.WriteResponse

/-!
# The client reads what the server writes

The head of a response as `avhttpd` writes it and `avhttp` reads it. For a request of version 1.0 the server leaves the number out of the status line.
-/

namespace Avbot.Http

open List Scanner Httpd Char
open Options (find headerLine headerString remove)
open HttpOptions (httpVersion)

structure IsHeaderName (name : Str) : Prop where
  ne_nil : name ≠ []
  chars : ∀ c ∈ name, c.isAlphanum = true ∨ c = '-'

structure IsHeaderValue (value : Str) : Prop where
  chars : ∀ c ∈ value, isCtl c = false
  head : value.head? ≠ some ' '
  getLast : value.getLast? ≠ some ' '

/-- The client reads a head that was written with this status and these options, and finds the status and these headers in it. -/
def HeadReadsBack (known : KnownHeaders) (status : Nat) (opts headers : Options) : Prop :=
  ∃ line rest h, parseHttpStatusLine (responseHead status opts) = some (line, rest) ∧ line.status = status ∧
    parseHttpHeaders known [] rest = some (h, []) ∧ h.headers = headers

theorem isCtl_strstatus (status : Int) : ∀ c ∈ strstatus status, isCtl c = false := by
  have htexts : ∀ entry ∈ statusTexts, ∀ c ∈ entry.2, isCtl c = false := by decide +kernel
  rw [strstatus]
  cases hlookup : statusTexts.lookup status with
  | none => decide
  | some text =>
    obtain ⟨l₁, l₂, hsplit, _⟩ := lookup_eq_some_iff.mp hlookup
    exact htexts (status, text) (by rw [hsplit]; simp)

theorem runs_status {ds : Str} (hne : ds ≠ []) (hdigits : ∀ c ∈ ds, c.isDigit = true) (line : StatusLine) :
    runs statusLineStep (.statusCodeStart, line) ds =
      some (.statusCode, { line with status := ds.foldl digit line.status }) := by
  cases ds with
  | nil => exact absurd rfl hne
  | cons d ds =>
    have hd : d.isDigit = true := hdigits d mem_cons_self
    have hfirst : statusLineStep (.statusCodeStart, line) d =
        .next (.statusCode, { line with status := digit line.status d }) := by simp [statusLineStep, statusLineStepWith, hd]
    rw [runs_cons hfirst]
    refine runs_of_forall (f := fun n => (StatusLineState.statusCode, { line with status := n })) ds _ ?_
    intro c hc n
    have hdigit := hdigits c (mem_cons_of_mem d hc)
    have hblank : c ≠ ' ' := by
      rintro rfl
      exact absurd hdigit (by decide)
    simp [statusLineStep, statusLineStepWith, hdigit, hblank]

variable {reason : Str} {c : Char}

theorem runs_reason (hreason : ∀ c ∈ reason, isCtl c = false) (line : StatusLine) :
    runs statusLineStep (.reasonPhrase, line) reason =
      some (.reasonPhrase, { line with reason := line.reason ++ reason }) := by
  rw [← foldl_concat]
  refine runs_of_forall (f := fun r => (StatusLineState.reasonPhrase, { line with reason := r })) reason _ ?_
  intro c hc r
  have hctl := hreason c hc
  have hcr : c ≠ '\r' := by
    rintro rfl
    exact absurd hctl (by decide)
  simp [statusLineStep, statusLineStepWith, hctl, hcr]

theorem parseHttpStatusLine_append (status : Nat) (hreason : ∀ c ∈ reason, isCtl c = false) (rest : Str) :
    parseHttpStatusLine ("HTTP/1.1 ".toList ++ (Str.decimal status ++ (' ' :: (reason ++ '\r' :: '\n' :: rest)))) =
      some (⟨1, 1, status, reason⟩, rest) := by
  have hversion : runs statusLineStep (.httpVersionH, ⟨0, 0, 0, []⟩) "HTTP/1.1 ".toList =
      some (.statusCodeStart, ⟨1, 1, 0, []⟩) := by decide
  have hstatus : (Str.decimal status).foldl digit 0 = status := by
    rw [foldl_digit, Str.decimal, Nat.ofDigitChars_ten_toDigits]
  rw [parseHttpStatusLine, scan_append hversion,
    scan_append (runs_status (Str.decimal_ne_nil status) (fun c hc => Str.isDigit_of_mem_decimal hc) _), hstatus, scan]
  show scan statusLineStep (.reasonPhrase, ⟨1, 1, status, []⟩) _ = _
  rw [scan_append (runs_reason hreason _)]
  rfl

variable {name value : Str}

theorem toLower_ne_of_name (hc : c.isAlphanum = true ∨ c = '-') : c.toLower ≠ '_' := by
  have hascii : ∀ n < 128, ((ofNat n).isAlphanum = true ∨ ofNat n = '-') → (ofNat n).toLower ≠ '_' := by decide
  have hlt : c.toNat < 128 := by
    rcases hc with halnum | rfl
    · exact lt_of_isAlphanum halnum
    · decide
  have := hascii c.toNat hlt
  rw [ofNat_toNat] at this
  exact this hc

theorem eq_blank_of_isSpace (hctl : isCtl c = false) (hspace : Str.isSpace c = true) : c = ' ' := by
  rcases Str.isSpace_cases hspace with rfl | rfl | rfl | rfl | rfl | rfl
  · rfl
  all_goals exact absurd hctl (by decide)

theorem trim_value (hvalue : IsHeaderValue value) : Str.trim value = value := by
  obtain ⟨hchars, hhead, hlast⟩ := hvalue
  have hright : Str.trimRight value = value := by
    refine Str.trimRight_eq_self_iff.mpr fun c hc => ?_
    by_contra hspace
    have hblank := eq_blank_of_isSpace (hchars c (mem_of_getLast? hc)) (by simpa using hspace)
    exact hlast (hblank ▸ hc)
  rw [Str.trim, hright, Str.trimLeft, dropWhile_eq_self_iff]
  intro hpos hspace
  have hblank := eq_blank_of_isSpace (hchars _ (getElem_mem hpos)) hspace
  rw [head?_eq_getElem?, getElem?_eq_getElem hpos, hblank] at hhead
  exact hhead rfl

def fieldOf (o : Str × Str) (ho : IsHeaderName o.1 ∧ IsHeaderValue o.2) : HeaderField where
  name := o.1
  before := 1
  value := o.2
  after := 0
  name_ne := ho.1.ne_nil
  name_chars := fun c hc => (ho.1.chars c hc).imp_right .inl
  value_chars := ho.2.chars

theorem pair_fieldOf (o : Str × Str) (ho : IsHeaderName o.1 ∧ IsHeaderValue o.2) : (fieldOf o ho).pair = o :=
  Prod.ext rfl (trim_value ho.2)

theorem text_fieldOf (o : Str × Str) (ho : IsHeaderName o.1 ∧ IsHeaderValue o.2) :
    (fieldOf o ho).text = headerLine o := by
  obtain ⟨name, value⟩ := o
  obtain ⟨c, name, rfl⟩ := exists_cons_of_ne_nil ho.1.ne_nil
  have hunder : c ≠ '_' := by
    rintro rfl
    exact toLower_ne_of_name (ho.1.chars '_' mem_cons_self) rfl
  simp [HeaderField.text, HeaderField.spaced, fieldOf, headerLine, hunder]

theorem parseHttpHeaders_headerString {headers : Options}
    (hheaders : ∀ o ∈ headers, IsHeaderName o.1 ∧ IsHeaderValue o.2) (known : KnownHeaders) :
    ∃ h, parseHttpHeaders known [] (headers.headerString ++ Str.crlf) = some (h, []) ∧ h.headers = headers := by
  have hpairs : (headers.pmap fieldOf hheaders).map HeaderField.pair = headers := by
    simp only [map_pmap, pair_fieldOf, pmap_eq_map, map_id']
  have htext : (headers.pmap fieldOf hheaders).flatMap HeaderField.text = headers.headerString := by
    simp only [flatMap_def, map_pmap, text_fieldOf, pmap_eq_map, headerString]
  obtain ⟨h, hparse, hstored⟩ := parseHttpHeaders_stored (headers.pmap fieldOf hheaders) known [] []
  rw [hpairs, nil_append] at hstored
  rw [htext, append_nil] at hparse
  exact ⟨h, hparse, hstored⟩

variable {pre post : Options}

theorem toLower_ne_version {name : Str} (hname : IsHeaderName name) : Str.toLower name ≠ Str.toLower httpVersion := by
  obtain ⟨hne, hchars⟩ := hname
  cases name with
  | nil => exact absurd rfl hne
  | cons c name =>
    intro heq
    exact toLower_ne_of_name (hchars c mem_cons_self) (cons.inj heq).1

theorem find_version (hpre : ∀ o ∈ pre, IsHeaderName o.1) (version : Str) :
    find (pre ++ (httpVersion, version) :: post) httpVersion = version := by
  induction pre with
  | nil => rw [nil_append, find, Options.find?_cons_of_eq rfl, Option.getD_some]
  | cons o pre ih =>
    rw [cons_append, find, Options.find?_cons_of_ne (toLower_ne_version (hpre o mem_cons_self))]
    exact ih fun o' ho' => hpre o' (mem_cons_of_mem o ho')

theorem remove_version (hpre : ∀ o ∈ pre, IsHeaderName o.1) (version : Str) :
    remove (pre ++ (httpVersion, version) :: post) httpVersion = pre ++ post := by
  induction pre with
  | nil => rw [nil_append, remove, if_pos rfl, nil_append]
  | cons o pre ih =>
    have hne : o.1 ≠ httpVersion :=
      fun heq => toLower_ne_version (hpre o mem_cons_self) (congrArg Str.toLower heq)
    rw [cons_append, remove, if_neg hne, ih fun o' ho' => hpre o' (mem_cons_of_mem o ho'), cons_append]

theorem responseHead_eq (status : Nat) {version : Str} (hpre : ∀ o ∈ pre, IsHeaderName o.1) :
    responseHead status (pre ++ (httpVersion, version) :: post) =
      (if version = "HTTP/1.1".toList then "HTTP/1.1 ".toList else "HTTP ".toList) ++
        (Str.decimal status ++ (' ' :: (strstatus status ++ '\r' :: '\n' ::
          (headerString (pre ++ post) ++ Str.crlf)))) := by
  have hstring : (if (pre ++ post).length ≠ 0 then headerString (pre ++ post) else []) =
      headerString (pre ++ post) := by
    split
    case isTrue => rfl
    case isFalse hempty =>
      rw [length_eq_zero_iff.mp (not_not.mp hempty)]
      rfl
  have hdecimal : Str.decimalInt status = Str.decimal status := by simp [Str.decimalInt]
  have hblank : " ".toList = [' '] := rfl
  rw [responseHead, find_version hpre, remove_version hpre, hstring, hdecimal, hblank]
  simp only [Str.crlf, append_assoc, cons_append, nil_append]

/-- The client reads back the status and the headers exactly if the version is 1.1, whatever the status is. -/
theorem headReadsBack_iff (known : KnownHeaders) (status : Nat) {version : Str}
    (hversion : version = "HTTP/1.0".toList ∨ version = "HTTP/1.1".toList)
    (hheaders : ∀ o ∈ pre ++ post, IsHeaderName o.1 ∧ IsHeaderValue o.2) :
    HeadReadsBack known status (pre ++ (httpVersion, version) :: post) (pre ++ post) ↔
      version = "HTTP/1.1".toList := by
  have hpre : ∀ o ∈ pre, IsHeaderName o.1 := fun o ho => (hheaders o (mem_append_left post ho)).1
  rw [HeadReadsBack, responseHead_eq status hpre]
  constructor
  · rintro ⟨line, rest, h, hline, _⟩
    rcases hversion with rfl | rfl
    · rw [if_neg (by decide)] at hline
      -- the state after `HTTP` expects a slash
      simp [parseHttpStatusLine, scan, statusLineStep, statusLineStepWith] at hline
    · rfl
  · rintro rfl
    obtain ⟨h, hparse, hall⟩ := parseHttpHeaders_headerString hheaders known
    rw [if_pos rfl, parseHttpStatusLine_append status (isCtl_strstatus status)]
    exact ⟨_, _, h, rfl, rfl, hparse, hall⟩

theorem headReadsBack_of_jsonResponse :
    HeadReadsBack ⟨[], 0, []⟩ 200
      ([("Content-Type".toList, "application/json; charset=utf8".toList)] ++ (httpVersion, "HTTP/1.1".toList) ::
        [("Cache-Control".toList, "no-cache".toList), ("X-Empty".toList, [])])
      [("Content-Type".toList, "application/json; charset=utf8".toList), ("Cache-Control".toList, "no-cache".toList),
        ("X-Empty".toList, [])] := by
  refine (headReadsBack_iff _ _ (.inr rfl) ?_).mpr rfl
  have hall : ∀ o ∈ [("Content-Type".toList, "application/json; charset=utf8".toList)] ++
      [("Cache-Control".toList, "no-cache".toList), ("X-Empty".toList, [])],
      (o.1 ≠ [] ∧ ∀ c ∈ o.1, c.isAlphanum = true ∨ c = '-') ∧
        (∀ c ∈ o.2, isCtl c = false) ∧ o.2.head? ≠ some ' ' ∧ o.2.getLast? ≠ some ' ' := by decide
  intro o ho
  obtain ⟨⟨hne, hname⟩, hvalue, hhead, hlast⟩ := hall o ho
  exact ⟨⟨hne, hname⟩, hvalue, hhead, hlast⟩

/-- The answer to a request of version 1.0 is refused. -/
theorem old_version_refused :
    let opts := [(httpVersion, "HTTP/1.0".toList)]
    responseHead 200 opts = "HTTP 200 OK\r\n\r\n".toList ∧ parseHttpStatusLine (responseHead 200 opts) = none ∧
      ¬ HeadReadsBack ⟨[], 0, []⟩ 200 opts [] := by
  intro opts
  have hparse : parseHttpStatusLine (responseHead (200 : Nat) opts) = none := by decide
  refine ⟨by decide, hparse, ?_⟩
  rintro ⟨line, rest, h, hline, _⟩
  rw [hparse] at hline
  exact absurd hline (by simp)

end Avbot.Http
