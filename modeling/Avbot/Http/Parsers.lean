import Avbot.Base.StringAlgo
import Avbot.Lib.Scanner

/-!
# The parsers of the HTTP client

`avhttp::detail::parse_http_status_line` and `parse_http_headers`, two loops over the characters of a response with an enumeration of states. The state `fail` ends both loops with the answer `false`.
-/

namespace Avbot.Http

open Scanner List
open Str (cStr decimal isSpace trim)

def isChar (c : Char) : Bool := c.toNat ≤ 127

def isCtl (c : Char) : Bool := c.toNat ≤ 31 || c.toNat == 127

def isTspecial (c : Char) : Bool := c ∈ " `\x7b\x7d^|".toList

def isToken (c : Char) : Bool := isChar c && !isCtl c && !isTspecial c

inductive StatusLineState where
  | httpVersionH
  | httpVersionT1
  | httpVersionT2
  | httpVersionP
  | httpVersionSlash
  | httpVersionMajorStart
  | httpVersionMajor
  | httpVersionMinorStart
  | httpVersionMinor
  | statusCodeStart
  | statusCode
  | reasonPhrase
  | linefeed
  deriving DecidableEq

structure StatusLineOf (ν : Type) where
  versionMajor : ν
  versionMinor : ν
  status : ν
  reason : Str
  deriving DecidableEq

abbrev StatusLine := StatusLineOf Nat

def digit (n : Nat) (c : Char) : Nat := n * 10 + (c.toNat - '0'.toNat)

/-- The loop of `parse_http_status_line`, for numbers of any type. -/
def statusLineStepWith {ν : Type} (digit : ν → Char → ν) (p : StatusLineState × StatusLineOf ν) (c : Char) :
    Outcome (StatusLineState × StatusLineOf ν) (StatusLineOf ν) :=
  let (state, line) := p
  let expect (want : Char) (next : StatusLineState) : Outcome (StatusLineState × StatusLineOf ν) (StatusLineOf ν) :=
    if c = want then .next (next, line) else .fail
  match state with
  | .httpVersionH => expect 'H' .httpVersionT1
  | .httpVersionT1 => expect 'T' .httpVersionT2
  | .httpVersionT2 => expect 'T' .httpVersionP
  | .httpVersionP => expect 'P' .httpVersionSlash
  | .httpVersionSlash => expect '/' .httpVersionMajorStart
  | .httpVersionMajorStart =>
    if c.isDigit then .next (.httpVersionMajor, { line with versionMajor := digit line.versionMajor c }) else .fail
  | .httpVersionMajor =>
    if c = '.' then .next (.httpVersionMinorStart, line)
    else if c.isDigit then .next (.httpVersionMajor, { line with versionMajor := digit line.versionMajor c })
    else .fail
  | .httpVersionMinorStart =>
    if c.isDigit then .next (.httpVersionMinor, { line with versionMinor := digit line.versionMinor c }) else .fail
  | .httpVersionMinor =>
    if c = ' ' then .next (.statusCodeStart, line)
    else if c.isDigit then .next (.httpVersionMinor, { line with versionMinor := digit line.versionMinor c })
    else .fail
  | .statusCodeStart =>
    if c.isDigit then .next (.statusCode, { line with status := digit line.status c }) else .fail
  | .statusCode =>
    if c = ' ' then .next (.reasonPhrase, line)
    else if c.isDigit then .next (.statusCode, { line with status := digit line.status c })
    else .fail
  | .reasonPhrase =>
    if c = '\r' then .next (.linefeed, line)
    else if isCtl c then .fail
    else .next (.reasonPhrase, { line with reason := line.reason ++ [c] })
  | .linefeed => if c = '\n' then .stop line else .fail

def statusLineStep : StatusLineState × StatusLine → Char → Outcome (StatusLineState × StatusLine) StatusLine :=
  statusLineStepWith digit

def parseHttpStatusLine (s : Str) : Option (StatusLine × Str) := scan statusLineStep (.httpVersionH, ⟨0, 0, 0, []⟩) s

example : parseHttpStatusLine "HTTP/1.1 302 Found\r\nA: b".toList = some (⟨1, 1, 302, "Found".toList⟩, "A: b".toList) := by
  decide

def strtoll (s : Str) : Int :=
  let (negative, digits) := match s.dropWhile isSpace with
    | '-' :: s => (true, s)
    | '+' :: s => (false, s)
    | s => (false, s)
  let magnitude : Int := ((digits.takeWhile Char.isDigit).foldl digit 0 : Nat)
  if negative then max (-magnitude) (-9223372036854775808) else min magnitude 9223372036854775807

theorem foldl_digit (ds : Str) : ds.foldl digit 0 = Nat.ofDigitChars 10 ds 0 := by
  have hdigit : digit = fun sofar c => 10 * sofar + (c.toNat - '0'.toNat) := by
    funext n c
    rw [digit, Nat.mul_comm]
  rw [hdigit, Nat.ofDigitChars_eq_foldl]

theorem foldl_decimal (n : Nat) : ((decimal n).takeWhile Char.isDigit).foldl digit 0 = n := by
  have hall : (decimal n).takeWhile Char.isDigit = decimal n :=
    takeWhile_eq_self_iff.mpr fun c hc => Str.isDigit_of_mem_decimal hc
  rw [hall, foldl_digit, decimal, Nat.ofDigitChars_ten_toDigits]

theorem strtoll_decimalInt {n : Int} (hn : -9223372036854775808 ≤ n ∧ n ≤ 9223372036854775807) :
    strtoll (cStr (Str.decimalInt n)) = n := by
  rw [Str.cStr_decimalInt, Str.decimalInt]
  by_cases hneg : n < 0
  · rw [if_pos hneg, strtoll]
    have hstart : ('-' :: decimal n.natAbs).dropWhile isSpace = '-' :: decimal n.natAbs := by
      simp [show isSpace '-' = false by decide]
    rw [hstart]
    show max (-((((decimal n.natAbs).takeWhile Char.isDigit).foldl digit 0 : Nat) : Int)) _ = n
    rw [foldl_decimal]
    omega
  · rw [if_neg hneg, strtoll]
    obtain ⟨d, ds, hds⟩ := exists_cons_of_ne_nil (Str.decimal_ne_nil n.natAbs)
    have hd : d.isDigit = true := Str.isDigit_of_mem_decimal (by rw [hds]; exact mem_cons_self)
    have hstart : (decimal n.natAbs).dropWhile isSpace = decimal n.natAbs := by
      rw [hds, dropWhile_cons_of_neg (by simp [Str.isSpace_of_isDigit hd])]
    rw [hstart]
    split
    rename_i negative digits hsign
    obtain ⟨rfl, rfl⟩ : false = negative ∧ decimal n.natAbs = digits := by
      split at hsign
      · rename_i heq
        rw [hds] at heq
        obtain ⟨rfl, -⟩ := cons.inj heq
        exact absurd hd (by decide)
      · rename_i heq
        rw [hds] at heq
        obtain ⟨rfl, -⟩ := cons.inj heq
        exact absurd hd (by decide)
      · simpa using hsign
    rw [foldl_decimal, if_neg (by simp)]
    omega

def headersEqual (a b : Str) : Bool := Str.toLower a = Str.toLower b

structure KnownHeaders where
  contentType : Str
  contentLength : Int
  location : Str
  deriving DecidableEq

def checkHeader (known : KnownHeaders) (name value : Str) : KnownHeaders :=
  if headersEqual name "Content-Type".toList then { known with contentType := value }
  else if headersEqual name "Content-Length".toList then
    { known with contentLength := max (strtoll (cStr value)) known.contentLength }
  else if headersEqual name "Location".toList then { known with location := value }
  else if headersEqual name "Content-Range".toList then
    match value.dropWhile (· ≠ '/') with
    | '/' :: c :: tmp => { known with contentLength := max (strtoll (cStr (c :: tmp))) known.contentLength }
    | _ => known
  else known

inductive HeadersState where
  | firstHeaderLineStart
  | headerLineStart
  | headerLws
  | headerName
  | spaceBeforeHeaderValue
  | headerValue
  | linefeed
  | finalLinefeed
  deriving DecidableEq

structure Headers where
  known : KnownHeaders
  headers : List (Str × Str)
  name : Str
  value : Str
  deriving DecidableEq

def Headers.commit (h : Headers) : Headers :=
  let name := trim h.name
  let value := trim h.value
  ⟨checkHeader h.known name value, h.headers ++ [(name, value)], [], []⟩

def headersStep (p : HeadersState × Headers) (c : Char) : Outcome (HeadersState × Headers) Headers :=
  let (state, h) := p
  match state with
  | .firstHeaderLineStart =>
    if c = '\r' then .next (.finalLinefeed, h)
    else if !isToken c then .fail
    else .next (.headerName, { h with name := h.name ++ [c] })
  | .headerLineStart =>
    if c = '\r' then .next (.finalLinefeed, h.commit)
    else if c = ' ' ∨ c = '\t' then .next (.headerLws, h)
    else if !isToken c then .fail
    else .next (.headerName, { h.commit with name := [c] })
  | .headerLws =>
    if c = '\r' then .next (.linefeed, h)
    else if c = ' ' ∨ c = '\t' then .next (.headerLws, h)
    else if isCtl c then .fail
    else .next (.headerValue, { h with value := h.value ++ [c] })
  | .headerName =>
    if c = ':' then .next (.spaceBeforeHeaderValue, h)
    else if !isToken c then .fail
    else .next (.headerName, { h with name := h.name ++ [c] })
  | .spaceBeforeHeaderValue =>
    -- a blank is kept, and goes when the value is trimmed
    if c = '\r' then .next (.linefeed, h)
    else if isCtl c then .fail
    else .next (.headerValue, { h with value := h.value ++ [c] })
  | .headerValue =>
    if c = '\r' then .next (.linefeed, h)
    else if isCtl c then if c = '\n' then .next (.headerLineStart, h) else .fail
    else .next (.headerValue, { h with value := h.value ++ [c] })
  | .linefeed => if c = '\n' then .next (.headerLineStart, h) else .fail
  | .finalLinefeed => if c = '\n' then .stop h else .fail

def parseHttpHeaders (known : KnownHeaders) (headers : List (Str × Str)) (s : Str) : Option (Headers × Str) :=
  scan headersStep (.firstHeaderLineStart, ⟨known, headers, [], []⟩) s

example : (parseHttpHeaders ⟨[], 0, []⟩ [] "Location: x\r\nA-b:\r\n\r\n".toList).map (fun r => (r.1.known.location, r.1.headers)) =
    some ("x".toList, [("Location".toList, "x".toList), ("A-b".toList, [])]) := by decide

variable {p : HeadersState × Headers} {c : Char} {h : Headers}

theorem headersStep_next {p' : HeadersState × Headers} (hstep : headersStep p c = .next p') :
    (p'.2.headers = p.2.headers ∧ p'.2.known = p.2.known) ∨
      (p'.2.headers = p.2.commit.headers ∧ p'.2.known = p.2.commit.known) := by
  obtain ⟨state, h⟩ := p
  cases state with
  | firstHeaderLineStart | headerLineStart | headerLws | headerName | spaceBeforeHeaderValue | headerValue | linefeed | finalLinefeed =>
    simp only [headersStep] at hstep
    split_ifs at hstep <;> obtain rfl := Outcome.next.inj hstep <;> first
      | exact .inl ⟨rfl, rfl⟩
      | exact .inr ⟨rfl, rfl⟩

theorem headersStep_stop (hstep : headersStep p c = .stop h) : h = p.2 := by
  obtain ⟨state, h₀⟩ := p
  cases state with
  | firstHeaderLineStart | headerLineStart | headerLws | headerName | spaceBeforeHeaderValue | headerValue | linefeed | finalLinefeed =>
    simp only [headersStep] at hstep
    split_ifs at hstep <;> exact (Outcome.stop.inj hstep).symm

theorem scan_headers_known {text rest : Str} (hscan : scan headersStep p text = some (h, rest)) :
    ∃ more, h.headers = p.2.headers ++ more ∧
      h.known = more.foldl (fun known o => checkHeader known o.1 o.2) p.2.known := by
  induction text generalizing p with
  | nil => simp [scan] at hscan
  | cons c text ih =>
    rw [scan] at hscan
    split at hscan
    case h_1 p' hstep =>
      obtain ⟨more, hheaders, hall⟩ := ih hscan
      rcases headersStep_next hstep with ⟨hsame, hknown⟩ | ⟨hsame, hknown⟩
      · rw [hsame] at hheaders
        rw [hknown] at hall
        exact ⟨more, hheaders, hall⟩
      · refine ⟨(trim p.2.name, trim p.2.value) :: more, ?_, ?_⟩
        · rw [hheaders, hsame, Headers.commit]
          simp
        · rw [hall, hknown, Headers.commit, foldl_cons]
    case h_2 answer hstep =>
      obtain ⟨rfl, -⟩ := Prod.mk.inj (Option.some.inj hscan)
      rw [headersStep_stop hstep]
      exact ⟨[], by simp, rfl⟩
    case h_3 => simp at hscan

end Avbot.Http
