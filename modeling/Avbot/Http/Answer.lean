import Avbot.Http.Request

/-!
# A complete answer

An answer whose status line and header the parsers of the client accept, and what `receive_header` makes of it, however its bytes come in pieces.
-/

namespace Avbot.Http

open List Option SegmentedInput Scanner
open Str (crlf)
open Httpd (Options cutLine)

structure Answer where
  statusLine : Str
  headerLines : List Str
  body : Str
  line : StatusLine
  headers : Options
  statusLine_chars : '\n' ∉ statusLine
  headerLine_chars : ∀ l ∈ headerLines, l ≠ [] ∧ '\n' ∉ l
  status_accepted : parseHttpStatusLine (statusLine ++ crlf) = some (line, [])
  headers_accepted : (parseHttpHeaders ⟨[], -1, []⟩ [] (headerLines.flatMap (· ++ crlf) ++ crlf)).map
    (fun parsed => (parsed.1.headers, parsed.2)) = some (headers, [])
  final : line.status ≠ 100

namespace Answer

def headerText (a : Answer) : Str := a.headerLines.flatMap (· ++ crlf) ++ crlf

def text (a : Answer) : Str := a.statusLine ++ crlf ++ a.headerText ++ a.body

def status (a : Answer) : Nat := a.line.status

theorem status_ne (a : Answer) : (a.status : Int) ≠ 100 := by
  have := a.final
  rw [status]
  omega

def piece (a : Answer) : Pending Char := ⟨[a.text], by simp [text, crlf]⟩

theorem content_piece (a : Answer) : a.piece.content = a.text := append_nil a.text

end Answer

def sampleAnswer : Answer where
  statusLine := "HTTP/1.1 200 OK".toList
  headerLines := ["A: b".toList]
  body := "hi".toList
  line := ⟨1, 1, 200, "OK".toList⟩
  headers := [("A".toList, "b".toList)]
  statusLine_chars := by decide
  headerLine_chars := by decide
  status_accepted := by decide +kernel
  headers_accepted := by decide +kernel
  final := by decide

structure Later (opts : Options) (p q : HeadersState × Headers) : Prop where
  state : q.1 = p.1
  name : q.2.name = p.2.name
  value : q.2.value = p.2.value
  headers : q.2.headers = opts ++ p.2.headers

theorem headersStep_later {opts : Options} {p q : HeadersState × Headers} (hlater : Later opts p q) (c : Char) :
    (headersStep p c).Related (Later opts) (fun h h' => h'.headers = opts ++ h.headers) (headersStep q c) := by
  obtain ⟨state, h⟩ := p
  obtain ⟨state', h'⟩ := q
  obtain ⟨hstate, hname, hvalue, hheaders⟩ := hlater
  dsimp only at hstate hname hvalue hheaders
  subst hstate
  have hcommit : h'.commit.headers = opts ++ h.commit.headers := by
    simp only [Headers.commit, hname, hvalue, hheaders, append_assoc]
  cases state' <;> dsimp only [headersStep] <;> (repeat' split) <;> constructor <;>
    first
      | exact hheaders
      | constructor <;> first | rfl | assumption | simp only [hname, hvalue]

theorem Answer.parseHttpHeaders_eq (a : Answer) (known : KnownHeaders) (opts : Options) :
    ∃ h, parseHttpHeaders known opts a.headerText = some (h, []) ∧ h.headers = opts ++ a.headers := by
  obtain ⟨⟨h, rest⟩, hparse, heq⟩ := map_eq_some_iff.mp a.headers_accepted
  obtain ⟨hheaders, rfl⟩ := Prod.mk.inj heq
  have hlater : Later opts (.firstHeaderLineStart, ⟨⟨[], -1, []⟩, [], [], []⟩)
      (.firstHeaderLineStart, ⟨known, opts, [], []⟩) := ⟨rfl, rfl, rfl, (append_nil opts).symm⟩
  obtain ⟨h', hparse', hsame⟩ := scan_related (fun p q c hpq => headersStep_later hpq c) hlater hparse
  exact ⟨h', hparse', by rw [hsame, ← hheaders]⟩

namespace HttpClient

def placed (s : HttpClient) (mResponse : Str) (sock : Pending Char) : HttpClient :=
  { s with mResponse := mResponse, sock := sock }

variable {s : HttpClient} {line rest : Str}

theorem readUntil_line (hline : '\n' ∉ line) (hcontent : s.content = line ++ (crlf ++ rest)) :
    ∃ more sock, s.sock.readUntil (fun buf => (cutLine buf).isSome) s.mResponse = some (line ++ (crlf ++ more), sock) ∧
      more ++ sock.content = rest := by
  have hcut : cutLine s.content = some (line, rest) := by
    rw [hcontent]
    exact Httpd.cutLine_line hline rest
  obtain ⟨got, sock, hread⟩ := Pending.readUntil_isSome (fun buf => (cutLine buf).isSome) s.mResponse s.sock
    (by rw [show s.mResponse ++ s.sock.content = s.content from rfl, hcut]; rfl)
  obtain ⟨hdone, happend⟩ := Pending.readUntil_spec hread
  obtain ⟨⟨line', more⟩, hgot⟩ := isSome_iff_exists.mp hdone
  have hall := Httpd.cutLine_append hgot sock.content
  rw [← happend, show s.mResponse ++ s.sock.content = s.content from rfl, hcut] at hall
  obtain ⟨rfl, hrest⟩ := Prod.mk.inj (some.inj hall)
  refine ⟨more, sock, ?_, hrest.symm⟩
  rw [hread, Httpd.eq_append_of_cutLine hgot]
  rfl

def takeLines : Nat → Str → Pending Char → Option (Str × Pending Char)
  | 0, buf, sock => some (buf, sock)
  | n + 1, buf, sock =>
    (sock.readUntil (fun buf => (cutLine buf).isSome) buf).bind fun read =>
      (cutLine read.1).bind fun cut => takeLines n cut.2 read.2

variable {more : Str} {sock : Pending Char} {n : Nat} {a : Answer}

theorem takeLines_succ (n : Nat) (hline : '\n' ∉ line)
    (hread : s.sock.readUntil (fun buf => (cutLine buf).isSome) s.mResponse = some (line ++ (crlf ++ more), sock)) :
    takeLines (n + 1) s.mResponse s.sock = takeLines n more sock := by
  have hcut : cutLine (line ++ (crlf ++ more)) = some (line, more) := Httpd.cutLine_line hline more
  rw [takeLines, hread, bind_some, hcut, bind_some]

theorem readLine_line (hline : '\n' ∉ line) (hcontent : s.content = line ++ (crlf ++ rest)) :
    ∃ more sock, s.readLine = some (line, s.placed more sock) ∧ more ++ sock.content = rest ∧
      ∀ n, takeLines (n + 1) s.mResponse s.sock = takeLines n more sock := by
  obtain ⟨more, sock, hread, hrest⟩ := readUntil_line hline hcontent
  refine ⟨more, sock, ?_, hrest, fun n => takeLines_succ n hline hread⟩
  have hcut : cutLine (line ++ (crlf ++ more)) = some (line, more) := Httpd.cutLine_line hline more
  rw [readLine, hread, bind_some, hcut]
  rfl

theorem loop_lines {β : Type*} (loop : Nat → Str → HttpClient → β) (finish : Str → HttpClient → β)
    (hloop : ∀ n headerString s line s', s.readLine = some (line, s') → loop (n + 1) headerString s =
      if line = [] then finish (headerString ++ line ++ crlf) s' else loop n (headerString ++ line ++ crlf) s')
    {lines : List Str} (headerString : Str) (hlines : ∀ l ∈ lines, l ≠ [] ∧ '\n' ∉ l) (hn : lines.length < n)
    (hcontent : s.content = lines.flatMap (· ++ crlf) ++ (crlf ++ rest)) :
    ∃ more sock, loop n headerString s =
        finish (headerString ++ (lines.flatMap (· ++ crlf) ++ crlf)) (s.placed more sock) ∧
      more ++ sock.content = rest ∧ takeLines (lines.length + 1) s.mResponse s.sock = some (more, sock) := by
  induction lines generalizing n s headerString with
  | nil =>
    obtain _ | n := n
    · cases hn
    obtain ⟨more, sock, hread, hrest, htake⟩ := readLine_line (show '\n' ∉ ([] : Str) by simp) hcontent
    refine ⟨more, sock, ?_, hrest, htake 0⟩
    rw [hloop _ _ _ _ _ hread, if_pos rfl, append_nil, flatMap_nil, nil_append]
  | cons l lines ih =>
    obtain _ | n := n
    · cases hn
    obtain ⟨hne, hl⟩ := hlines l mem_cons_self
    rw [flatMap_cons, append_assoc, append_assoc] at hcontent
    obtain ⟨more, sock, hread, hrest, htake⟩ := readLine_line hl hcontent
    obtain ⟨more', sock', hreceive, hrest', htake'⟩ := ih (s := s.placed more sock) (headerString ++ l ++ crlf)
      (fun l' hl' => hlines l' (mem_cons_of_mem l hl')) (Nat.lt_of_succ_lt_succ hn) hrest
    refine ⟨more', sock', ?_, hrest', (htake _).trans htake'⟩
    rw [hloop _ _ _ _ _ hread, if_neg hne, hreceive]
    simp only [flatMap_cons, append_assoc]
    rfl

def afterStatus (s : HttpClient) (a : Answer) : HttpClient :=
  { s with mStatusCode := a.status, mResponseOpts := [(HttpOptions.statusCode, Str.decimalInt a.status)] }

theorem receiveStatusLine_answer (a : Answer) (hcontent : s.content = a.statusLine ++ (crlf ++ rest)) :
    ∃ more sock, s.receiveStatusLine = .goesOn (statusErrc a.status) ({ s with mStatusCode := a.status }.placed more sock) ∧
      more ++ sock.content = rest ∧ ∀ n, takeLines (n + 1) s.mResponse s.sock = takeLines n more sock := by
  obtain ⟨more, sock, hread, hrest⟩ := readUntil_line a.statusLine_chars hcontent
  refine ⟨more, sock, ?_, hrest, fun n => takeLines_succ n a.statusLine_chars hread⟩
  have hparse : parseHttpStatusLine (a.statusLine ++ (crlf ++ more)) = some (a.line, more) := by
    rw [← append_assoc]
    exact scan_append_of_some a.status_accepted more
  rw [receiveStatusLine, hread]
  dsimp only
  rw [hparse]
  dsimp only
  rw [if_pos a.final]
  rfl

theorem receiveStatus_answer (a : Answer) (hn : 0 < n) (hcontent : s.content = a.statusLine ++ (crlf ++ rest)) :
    ∃ more sock, receiveStatus n s = .goesOn (statusErrc a.status) ({ s with mStatusCode := a.status }.placed more sock) ∧
      more ++ sock.content = rest ∧ ∀ m, takeLines (m + 1) s.mResponse s.sock = takeLines m more sock := by
  obtain _ | n := n
  · cases hn
  obtain ⟨more, sock, hline, hrest, htake⟩ := receiveStatusLine_answer a hcontent
  refine ⟨more, sock, ?_, hrest, htake⟩
  rw [receiveStatus, hline]
  dsimp only
  rw [if_pos (.inl a.status_ne)]

theorem length_le_flatMap_crlf (lines : List Str) : lines.length ≤ (lines.flatMap (· ++ crlf)).length := by
  induction lines with
  | nil => simp
  | cons l lines ih =>
    rw [flatMap_cons, length_append, length_append, length_cons, show Str.crlf.length = 2 from rfl]
    omega

theorem headerLines_length_lt (hcontent : s.content = a.headerText ++ a.body) :
    a.headerLines.length < s.content.length + 1 := by
  have := length_le_flatMap_crlf a.headerLines
  rw [hcontent, Answer.headerText, length_append, length_append]
  omega

variable (lib : CookieLib)

theorem receiveHeader_of_status
    (hstatus : receiveStatus ({ s with mResponse := [] }.content.length + 1) { s with mResponse := [] } =
      .goesOn (statusErrc a.status) ({ s with mStatusCode := a.status }.placed more sock))
    (hrest : more ++ sock.content = a.headerText ++ a.body) :
    ∃ more' sock', s.receiveHeader lib =
        some (finishHeader lib (statusErrc a.status) a.headerText ((s.afterStatus a).placed more' sock')) ∧
      more' ++ sock'.content = a.body ∧ takeLines (a.headerLines.length + 1) more sock = some (more', sock') := by
  have hcontent : ((s.afterStatus a).placed more sock).content = a.headerLines.flatMap (· ++ crlf) ++ (crlf ++ a.body) := by
    rw [← append_assoc]
    exact hrest
  obtain ⟨more', sock', hlines, hbody, htake⟩ := loop_lines (receiveLines (finishHeader lib (statusErrc a.status)))
    (fun headerString s => some (finishHeader lib (statusErrc a.status) headerString s))
    (fun n headerString s line s' hread => by rw [receiveLines, hread]) [] a.headerLine_chars
    (headerLines_length_lt (s := (s.afterStatus a).placed more sock) hrest) hcontent
  refine ⟨more', sock', ?_, hbody, htake⟩
  rw [receiveHeader]
  rw [hstatus]
  exact (if_neg a.status_ne).trans hlines

theorem receiveHeader_answer (hsock : s.sock.content = a.text) :
    ∃ more sock, s.receiveHeader lib =
        some (finishHeader lib (statusErrc a.status) a.headerText ((s.afterStatus a).placed more sock)) ∧
      more ++ sock.content = a.body ∧ takeLines (a.headerLines.length + 2) [] s.sock = some (more, sock) := by
  have hcontent : { s with mResponse := [] }.content = a.statusLine ++ (crlf ++ (a.headerText ++ a.body)) := by
    rw [← append_assoc, ← append_assoc]
    exact hsock
  obtain ⟨more, sock, hstatus, hrest, htake⟩ := receiveStatus_answer a (Nat.succ_pos _) hcontent
  obtain ⟨more', sock', hreceive, hbody, htake'⟩ := receiveHeader_of_status lib hstatus hrest
  exact ⟨more', sock', hreceive, hbody, (htake _).trans htake'⟩

theorem finishHeader_answer (ec : Option OpenErrc) (a : Answer) (s : HttpClient) :
    ∃ h, parseHttpHeaders ⟨s.mContentType, s.mContentLength, s.mLocation⟩ s.mResponseOpts a.headerText = some (h, []) ∧
      h.headers = s.mResponseOpts ++ a.headers ∧ (finishHeader lib ec a.headerText s).1 = ec ∧
      (finishHeader lib ec a.headerText s).2.mResponseOpts = s.mResponseOpts ++ a.headers ∧
      (finishHeader lib ec a.headerText s).2.mStatusCode = s.mStatusCode := by
  obtain ⟨h, hparse, hheaders⟩ := a.parseHttpHeaders_eq ⟨s.mContentType, s.mContentLength, s.mLocation⟩ s.mResponseOpts
  refine ⟨h, hparse, hheaders, ?_⟩
  rw [finishHeader]
  rw [hparse]
  exact ⟨rfl, hheaders, rfl⟩

theorem finishHeader_placed (ec : Option OpenErrc) (text : Str) (s : HttpClient) (more : Str) (sock : Pending Char) :
    finishHeader lib ec text (s.placed more sock) =
      ((finishHeader lib ec text s).1, (finishHeader lib ec text s).2.placed more sock) := by
  rw [finishHeader, finishHeader]
  dsimp only [placed]
  split <;> rfl

end HttpClient

end Avbot.Http
