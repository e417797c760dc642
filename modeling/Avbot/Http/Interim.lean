import Avbot.Http.AsyncOpen
import Avbot.Http.ResponseHead

/-!
# Interim answers

A server may send answers 100 before the one that counts. Both ways to receive a header take the status line and the empty line of such an answer from the buffer, and two bytes more, which may be the first bytes of the next answer.
-/

namespace Avbot.Http

open List Option SegmentedInput Scanner
open HttpOptions (requestMethod statusCode)
open HttpStream (content)
open Str (crlf)
open Httpd (Options cutLine)

def interimStart : Str := "HTTP/1.1 100 ".toList

def interimLine (reason : Str) : Str := interimStart ++ reason

def interim (reason : Str) : Str := interimLine reason ++ (crlf ++ crlf)

/-- Each interim answer comes in pieces of its own, of which the last brings the end of the status line together with the empty line. -/
def InOwnPieces : List Str → List Str → Prop
  | [], _ => True
  | reason :: reasons, pieces =>
    (∀ c ∈ reason, isCtl c = false) ∧
      ∃ pre post, pieces = pre ++ post ∧ pre.flatten = interim reason ∧ cutLine pre.dropLast.flatten = none ∧
        InOwnPieces reasons post

/-! ### Pieces -/

theorem inOwnPieces_cons {reason : Str} {reasons pieces rest : List Str} {got : Str}
    (hread : readUntil (fun buf => (cutLine buf).isSome) [] pieces = some (got, rest)) :
    InOwnPieces (reason :: reasons) pieces ↔
      (∀ c ∈ reason, isCtl c = false) ∧ got = interim reason ∧ InOwnPieces reasons rest := by
  have hiff : ∀ got' rest', readUntil (fun buf => (cutLine buf).isSome) [] pieces = some (got', rest') ↔ _ :=
    fun got' rest' => readUntil_eq_some_iff Httpd.isSome_cutLine_append rfl
  rw [InOwnPieces]
  apply and_congr_right
  intro _
  constructor
  · rintro ⟨pre, post, hpieces, hpre, hlast, hrest⟩
    have hend : (cutLine (interim reason)).isSome = true := Httpd.cutLine_isSome (interimLine reason) crlf
    have hsame := (hiff (interim reason) post).mpr ⟨pre, hpieces, hpre.symm, hend, by rw [nil_append, hlast]; rfl⟩
    rw [hread] at hsame
    obtain ⟨rfl, rfl⟩ := Prod.mk.inj (some.inj hsame)
    exact ⟨rfl, hrest⟩
  · rintro ⟨rfl, hrest⟩
    obtain ⟨pre, hpieces, hpre, -, hlast⟩ := (hiff _ _).mp hread
    exact ⟨pre, rest, hpieces, hpre.symm, by simpa using hlast, hrest⟩

/-! ### One status line -/

namespace HttpClient

variable {s : HttpClient} {reason rest : Str}

def Refused (received : Received) : Prop :=
  ∃ s', received = some (some .malformedStatusLine, s') ∧ (s'.mStatusCode = 0 ∨ s'.mStatusCode = 100)

theorem runs_interim : runs statusLineStep (.httpVersionH, ⟨0, 0, 0, []⟩) interimStart =
    some (.reasonPhrase, ⟨1, 1, 100, []⟩) := by decide

theorem parseHttpStatusLine_of_isCtl (hcr : '\r' ∉ reason) (hctl : ¬ ∀ c ∈ reason, isCtl c = false) (more : Str) :
    parseHttpStatusLine (interimLine reason ++ more) = none ∧
      (reached statusLineStep (.httpVersionH, ⟨0, 0, 0, []⟩) (interimLine reason ++ more)).2.status = 100 := by
  obtain ⟨good, c, bad, rfl, hgood, hc⟩ : ∃ good c bad, reason = good ++ c :: bad ∧ (∀ d ∈ good, isCtl d = false) ∧ isCtl c = true := by
    have hsome : (find? isCtl reason).isSome := find?_isSome.mpr (by simpa using hctl)
    obtain ⟨c, hc⟩ := isSome_iff_exists.mp hsome
    obtain ⟨hctl, good, bad, hsplit, hgood⟩ := find?_eq_some_iff_append.mp hc
    exact ⟨good, c, bad, hsplit, by simpa using hgood, hctl⟩
  have hne : c ≠ '\r' := fun heq => hcr (by simp [heq])
  have hruns := runs_reason hgood ⟨1, 1, 100, []⟩
  have hfail : ∀ line, statusLineStep (.reasonPhrase, line) c = .fail := by
    intro line
    simp [statusLineStep, statusLineStepWith, hne, hc]
  rw [interimLine, append_assoc, append_assoc, cons_append]
  constructor
  · rw [parseHttpStatusLine, scan_append runs_interim, scan_append hruns, scan, hfail]
  · rw [reached_append runs_interim, reached_append hruns, reached, hfail]

theorem parseHttpStatusLine_interim (hreason : ∀ c ∈ reason, isCtl c = false) (more : Str) :
    parseHttpStatusLine (interimLine reason ++ (crlf ++ more)) = some (⟨1, 1, 100, reason⟩, more) := by
  rw [interimLine, append_assoc, parseHttpStatusLine, scan_append runs_interim, scan_append (runs_reason hreason _)]
  rfl

theorem receiveStatusLine_interim (hchars : '\r' ∉ reason ∧ '\n' ∉ reason) (hempty : s.mResponse = [])
    (hcontent : s.sock.content = interim reason ++ rest) :
    ∃ got sock, s.sock.readUntil (fun buf => (cutLine buf).isSome) [] = some (got, sock) ∧
      (((¬ ∀ c ∈ reason, isCtl c = false) ∨ got.length < (interim reason).length) ∧
          (∃ received, s.receiveStatusLine = .ended received ∧ Refused received) ∨
        (∀ c ∈ reason, isCtl c = false) ∧ ∃ more, got = interim reason ++ more ∧ more ++ sock.content = rest ∧
          s.receiveStatusLine = .goesOn (statusErrc 100) ({ s with mStatusCode := 100 }.placed (more.drop 2) sock)) := by
  have hline : '\n' ∉ interimLine reason := by
    rw [interimLine, mem_append]
    rintro (hmem | hmem)
    · exact absurd hmem (by decide)
    · exact hchars.2 hmem
  have hall : s.content = interimLine reason ++ (crlf ++ (crlf ++ rest)) := by
    rw [content, hempty, nil_append, hcontent, interim]
    simp only [append_assoc]
  obtain ⟨tempbuf, sock, hread, hrest⟩ := readUntil_line hline hall
  rw [hempty] at hread
  refine ⟨_, sock, hread, ?_⟩
  rw [receiveStatusLine, hempty, hread]
  dsimp only
  by_cases hreason : ∀ c ∈ reason, isCtl c = false
  · rw [parseHttpStatusLine_interim hreason]
    dsimp only
    rw [if_neg (by simp)]
    by_cases hcrlf : tempbuf.take 2 = crlf
    · obtain ⟨more, rfl⟩ : ∃ more, tempbuf = crlf ++ more :=
        ⟨tempbuf.drop 2, by rw [← hcrlf, take_append_drop]⟩
      rw [if_neg (by simp [hcrlf])]
      refine .inr ⟨hreason, more, by simp [interim], ?_, rfl⟩
      rw [append_assoc] at hrest
      exact append_cancel_left hrest
    · rw [if_pos hcrlf]
      refine .inl ⟨.inr ?_, _, rfl, _, rfl, .inr rfl⟩
      -- a buffer with the whole interim answer would have its empty line
      by_contra hlong
      rw [interim, length_append, length_append, length_append, length_append] at hlong
      apply hcrlf
      have htake := congrArg (take 2) hrest
      rw [take_append_of_le_length (by rw [show Str.crlf.length = 2 from rfl] at hlong; omega)] at htake
      exact htake
  · obtain ⟨hparse, hstatus⟩ := parseHttpStatusLine_of_isCtl hchars.1 hreason (crlf ++ tempbuf)
    rw [hparse]
    refine .inl ⟨.inl hreason, _, rfl, _, rfl, .inr ?_⟩
    exact congrArg Nat.cast hstatus

theorem receiveStatusLine_torn {w : Str} (hw : '\n' ∉ w) (hcontent : s.content = 'T' :: w ++ (crlf ++ rest)) :
    ∃ received, s.receiveStatusLine = .ended received ∧ Refused received := by
  have hline : '\n' ∉ 'T' :: w := by simp [hw]
  obtain ⟨more, sock, hread, -⟩ := readUntil_line hline hcontent
  rw [receiveStatusLine, hread]
  exact ⟨_, rfl, _, rfl, .inl rfl⟩

end HttpClient

/-! ### The loop over the status lines -/

def StartsLine (text : Str) : Prop := ∃ w rest, text = 'H' :: 'T' :: 'T' :: (w ++ (crlf ++ rest)) ∧ '\n' ∉ w

variable {text : Str} {line : StatusLine}

theorem eq_of_parseHttpStatusLine {rest : Str} (hparse : parseHttpStatusLine text = some (line, rest)) :
    ∃ w, text = 'H' :: 'T' :: 'T' :: w := by
  rw [parseHttpStatusLine] at hparse
  cases text with
  | nil => simp [scan] at hparse
  | cons c text =>
    by_cases hc : c = 'H'
    swap
    · simp [scan, statusLineStep, statusLineStepWith, hc] at hparse
    cases text with
    | nil => simp [scan, statusLineStep, statusLineStepWith, hc] at hparse
    | cons d text =>
      by_cases hd : d = 'T'
      swap
      · simp [scan, statusLineStep, statusLineStepWith, hc, hd] at hparse
      cases text with
      | nil => simp [scan, statusLineStep, statusLineStepWith, hc, hd] at hparse
      | cons e text =>
        by_cases he : e = 'T'
        swap
        · simp [scan, statusLineStep, statusLineStepWith, hc, hd, he] at hparse
        exact ⟨text, by rw [hc, hd, he]⟩

theorem startsLine_of_parse (hchars : '\n' ∉ text)
    (hparse : parseHttpStatusLine (text ++ crlf) = some (line, [])) (rest : Str) : StartsLine (text ++ crlf ++ rest) := by
  obtain ⟨w, hw⟩ := eq_of_parseHttpStatusLine hparse
  rcases text with _ | ⟨c, _ | ⟨d, _ | ⟨e, w'⟩⟩⟩
  · simp [crlf] at hw
  · simp [crlf] at hw
  · simp [crlf] at hw
  · obtain ⟨rfl, rfl, rfl, -⟩ : c = 'H' ∧ d = 'T' ∧ e = 'T' ∧ _ := by simpa only [cons_append, cons.injEq] using hw
    refine ⟨w', rest, by simp only [cons_append, append_assoc], ?_⟩
    simpa using hchars

theorem startsLine_interims (reasons : List Str) (hchars : ∀ reason ∈ reasons, '\r' ∉ reason ∧ '\n' ∉ reason) (a : Answer) :
    StartsLine (reasons.flatMap interim ++ a.text) := by
  cases reasons with
  | nil =>
    rw [flatMap_nil, nil_append, Answer.text, append_assoc]
    exact startsLine_of_parse a.statusLine_chars a.status_accepted _
  | cons reason reasons =>
    refine ⟨"P/1.1 100 ".toList ++ reason, crlf ++ (reasons.flatMap interim ++ a.text), ?_, ?_⟩
    · rw [flatMap_cons, interim, interimLine, show interimStart = 'H' :: 'T' :: 'T' :: "P/1.1 100 ".toList from rfl]
      simp only [cons_append, append_assoc]
    · rw [mem_append]
      rintro (hmem | hmem)
      · exact absurd hmem (by decide)
      · exact (hchars reason mem_cons_self).2 hmem

namespace HttpClient

variable {s : HttpClient}

variable {s₁ : HttpClient} {n : Nat} {reasons : List Str} {c : Char} {more : Str}
    {sock : Pending Char} {lib : CookieLib} {a : Answer}

theorem receiveStatus_again {ec : Option OpenErrc} (hline : s.receiveStatusLine = .goesOn ec s₁)
    (hstatus : s₁.mStatusCode = 100) (hget : s₁.mRequestOptsPriv.find requestMethod ≠ "POST".toList) :
    receiveStatus (n + 1) s = receiveStatus n s₁ := by
  rw [receiveStatus, hline]
  apply if_neg
  rintro (hne | hpost)
  · exact hne hstatus
  · exact hget hpost

theorem interim_length_pos (reason : Str) : 0 < (interim reason).length := by
  rw [interim, length_append, length_append, show Str.crlf.length = 2 from rfl]
  omega

theorem exists_torn_line (a : Answer) (hchars : ∀ reason ∈ reasons, '\r' ∉ reason ∧ '\n' ∉ reason)
    {rest : Str} (hrest : c :: more ++ rest = reasons.flatMap interim ++ a.text) :
    ∃ w after, (c :: more).drop 2 ++ rest = 'T' :: w ++ (crlf ++ after) ∧ '\n' ∉ w := by
  obtain ⟨w, after, hstart, hw⟩ := startsLine_interims reasons hchars a
  rw [hstart] at hrest
  cases more with
  | nil => exact ⟨'T' :: w, after, (cons.inj hrest).2, by simp [hw]⟩
  | cons d more => exact ⟨w, after, (cons.inj (cons.inj hrest).2).2, hw⟩

theorem receiveStatus_torn (a : Answer) (hchars : ∀ reason ∈ reasons, '\r' ∉ reason ∧ '\n' ∉ reason)
    (hrest : c :: more ++ sock.content = reasons.flatMap interim ++ a.text)
    (hn : 0 < n) :
    ∃ received, receiveStatus n (s.placed ((c :: more).drop 2) sock) = .ended received ∧ Refused received := by
  obtain ⟨w, rest, htext, hw⟩ := exists_torn_line a hchars hrest
  have hleft : (s.placed ((c :: more).drop 2) sock).content = 'T' :: w ++ (crlf ++ rest) := htext
  obtain ⟨received, htorn, hrefused⟩ := receiveStatusLine_torn hw hleft
  obtain _ | n := n
  · cases hn
  exact ⟨received, by rw [receiveStatus, htorn], hrefused⟩

theorem receiveStatus_interims (a : Answer) (hchars : ∀ reason ∈ reasons, '\r' ∉ reason ∧ '\n' ∉ reason)
    (hget : s.mRequestOptsPriv.find requestMethod ≠ "POST".toList) (hn : s.content.length < n)
    (hempty : s.mResponse = []) (hcontent : s.sock.content = reasons.flatMap interim ++ a.text) :
    (InOwnPieces reasons s.sock.segs ∧ ∃ more sock, more ++ sock.content = a.headerText ++ a.body ∧
        receiveStatus n s = .goesOn (statusErrc a.status) ({ s with mStatusCode := a.status }.placed more sock)) ∨
      (¬ InOwnPieces reasons s.sock.segs ∧ ∃ received, receiveStatus n s = .ended received ∧ Refused received) := by
  induction reasons generalizing s n with
  | nil =>
    have hall : s.content = a.statusLine ++ (crlf ++ (a.headerText ++ a.body)) := by
      rw [content, hempty, hcontent, Answer.text]
      simp only [flatMap_nil, nil_append, append_assoc]
    obtain ⟨more, sock, hstatus, hrest, -⟩ := receiveStatus_answer a (Nat.zero_lt_of_lt hn) hall
    exact .inl ⟨trivial, more, sock, hrest, hstatus⟩
  | cons reason reasons ih =>
    obtain _ | n := n
    · cases hn
    have hlater : ∀ reason' ∈ reasons, '\r' ∉ reason' ∧ '\n' ∉ reason' :=
      fun reason' hmem => hchars reason' (mem_cons_of_mem reason hmem)
    rw [flatMap_cons, append_assoc] at hcontent
    obtain ⟨got, sock, hread, hcases⟩ := receiveStatusLine_interim (hchars reason mem_cons_self) hempty hcontent
    rw [inOwnPieces_cons (Pending.readUntil_segs hread)]
    rcases hcases with ⟨hbad, received, hline, hrefused⟩ | ⟨hreason, more, hgot, hrest, hline⟩
    · refine .inr ⟨?_, received, by rw [receiveStatus, hline], hrefused⟩
      rintro ⟨hreason, rfl, -⟩
      rcases hbad with hbad | hbad
      · exact hbad hreason
      · exact Nat.lt_irrefl _ hbad
    · rw [receiveStatus_again hline rfl hget]
      cases more with
      | nil =>
        have hshort : ({ s with mStatusCode := 100 }.placed [] sock).content.length < n := by
          have hlong : s.content.length = (interim reason).length + sock.content.length := by
            rw [content, hempty, nil_append, hcontent, ← hrest, nil_append, length_append]
          have hpos := interim_length_pos reason
          show sock.content.length < n
          omega
        have hown : (∀ c ∈ reason, isCtl c = false) ∧ got = interim reason ∧ InOwnPieces reasons sock.segs ↔
            InOwnPieces reasons sock.segs :=
          ⟨fun h => h.2.2, fun h => ⟨hreason, by rw [hgot, append_nil], h⟩⟩
        rw [hown]
        exact ih (s := ({ s with mStatusCode := 100 } : HttpClient).placed [] sock) hlater hget hshort rfl hrest
      | cons c more =>
        have hpos : 0 < n := by
          have := (receiveStatusLine_goesOn hline).2
          omega
        refine .inr ⟨?_, receiveStatus_torn a hlater hrest hpos⟩
        rintro ⟨-, heq, -⟩
        rw [hgot] at heq
        simp at heq

/-! ### The header that is received -/

def settled (s : HttpClient) : HttpClient := s.placed s.content .nil

/-- `receive_header` ends with the status and the headers of the answer and leaves its body, and so it does when the answer comes alone, in whatever pieces. -/
def ReceivesFinal (lib : CookieLib) (s : HttpClient) (a : Answer) : Prop :=
  ∃ ec s', s.receiveHeader lib = some (ec, s') ∧ s'.mStatusCode = a.status ∧
    s'.mResponseOpts = (statusCode, Str.decimalInt a.status) :: a.headers ∧ s'.content = a.body ∧
    ∀ sock : Pending Char, sock.content = a.text →
      ∃ s'', { s with sock := sock }.receiveHeader lib = some (ec, s'') ∧ s''.settled = s'.settled

def AsyncReceivesFinal (lib : HttpLib) (s : HttpClient) (a : Answer) : Prop :=
  (∀ sock : Pending Char, sock.content = a.text →
    (s.asyncReceiveHeader lib).apart = ({ s with sock := sock }.asyncReceiveHeader lib).apart) ∧
  (a.status ≠ 301 → a.status ≠ 302 → ∃ ec s', s.asyncReceiveHeader lib = .returned ec s' ∧ s'.mStatusCode = a.status ∧
    s'.mResponseOpts = (statusCode, Str.decimalInt a.status) :: a.headers ∧ s'.content = a.body)

theorem receivesFinal_of_status
    (hstatus : receiveStatus ({ s with mResponse := [] }.content.length + 1) { s with mResponse := [] } =
      .goesOn (statusErrc a.status) ({ s with mStatusCode := a.status }.placed more sock))
    (hrest : more ++ sock.content = a.headerText ++ a.body) : s.ReceivesFinal lib a := by
  obtain ⟨h, -, -, -, hopts, hcode⟩ := finishHeader_answer lib (statusErrc a.status) a (s.afterStatus a)
  obtain ⟨more', sock', hreceive, hbody, -⟩ := receiveHeader_of_status lib hstatus hrest
  rw [finishHeader_placed] at hreceive
  refine ⟨_, _, hreceive, hcode, hopts, hbody, ?_⟩
  intro sock₁ hsock₁
  obtain ⟨more₁, sock₁', hreceive₁, hbody₁, -⟩ := receiveHeader_answer (s := { s with sock := sock₁ }) lib hsock₁
  refine ⟨_, hreceive₁.trans (congrArg some (finishHeader_placed lib _ _ (s.afterStatus a) more₁ sock₁')), ?_⟩
  show placed _ (more₁ ++ sock₁'.content) .nil = placed _ (more' ++ sock'.content) .nil
  rw [hbody, hbody₁]
  rfl

theorem not_receivesFinal_of_refused (hrefused : Refused (s.receiveHeader lib)) : ¬ s.ReceivesFinal lib a := by
  obtain ⟨s₁, hreceive, hcode⟩ := hrefused
  rintro ⟨ec, s', hsame, hstatus, -, -, halone⟩
  rw [hreceive] at hsame
  obtain ⟨rfl, rfl⟩ := Prod.mk.inj (some.inj hsame)
  have hzero : a.status = 0 := by
    have := a.status_ne
    omega
  obtain ⟨s'', hanswer, -⟩ := halone a.piece a.content_piece
  obtain ⟨more, sock, hreceive', -⟩ := receiveHeader_answer (s := { s with sock := a.piece }) lib a.content_piece
  obtain ⟨h, -, -, hec, -⟩ :=
    finishHeader_answer lib (statusErrc a.status) a (({ s with sock := a.piece }.afterStatus a).placed more sock)
  rw [hanswer] at hreceive'
  rw [← some.inj hreceive', hzero] at hec
  cases hec

theorem completeHeader_answer (lib : HttpLib) (hcode : s.mStatusCode = a.status) :
    (∃ s', completeHeader lib a.headerText s = .returned (statusErrc a.status) s' ∧ s'.mStatusCode = a.status ∧
      s'.mResponseOpts = s.mResponseOpts ++ a.headers ∧
      (a.status ≠ 301 → a.status ≠ 302 → s'.content = s.content)) ∨
    ((a.status = 301 ∨ a.status = 302) ∧ ∀ s', completeHeader lib a.headerText s ≠ .returned (some .malformedStatusLine) s') := by
  obtain ⟨h, hparse, hheaders⟩ := a.parseHttpHeaders_eq ⟨s.mContentType, s.mContentLength, s.mLocation⟩ s.mResponseOpts
  rw [completeHeader_of_parse hparse]
  by_cases hfollows : (s.located h).Follows
  · have hmoved : s.mStatusCode = 301 ∨ s.mStatusCode = 302 := hfollows.1
    refine .inr ⟨by omega, fun s' hreturned => ?_⟩
    rw [followHeader_of_follows hfollows] at hreturned
    split at hreturned
    · exact absurd (Opening.returned.inj hreturned).1 (by decide)
    · rw [beginOpen] at hreturned
      split at hreturned
      · exact absurd (Opening.returned.inj hreturned).1 (by decide)
      · cases hreturned
  · rw [followHeader_of_not_follows hfollows, closeMoved]
    have hstatus : statusErrc (s.located h).mStatusCode.toNat = statusErrc a.status := by
      rw [show (s.located h).mStatusCode = s.mStatusCode from rfl, hcode, Int.toNat_natCast]
    left
    split
    case isTrue hmoved =>
      refine ⟨_, congrArg (Opening.returned · _) hstatus, hcode, hheaders, fun h₁ h₂ => ?_⟩
      have : s.mStatusCode = 301 ∨ s.mStatusCode = 302 := hmoved
      omega
    case isFalse => exact ⟨_, congrArg (Opening.returned · _) hstatus, hcode, hheaders, fun _ _ => rfl⟩

theorem asyncReceivesFinal_of_status {lib : HttpLib} (hempty : s.mResponse = [])
    (hstatus : receiveStatus (s.content.length + 1) s =
      .goesOn (statusErrc a.status) ({ s with mStatusCode := a.status }.placed more sock))
    (hrest : more ++ sock.content = a.headerText ++ a.body) : s.AsyncReceivesFinal lib a := by
  obtain ⟨more', sock', hreceive, hbody⟩ := asyncReceiveHeader_of_status lib hstatus hrest
  constructor
  · intro sock₁ hsock₁
    have hcontent : ({ s with sock := sock₁ } : HttpClient).content = a.text := by
      rw [content, hempty]
      exact hsock₁
    obtain ⟨more₁, sock₁', hreceive₁, -⟩ := asyncReceiveHeader_answer lib hcontent
    rw [hreceive, hreceive₁, apart_completeHeader, apart_completeHeader]
    exact (apart_completeHeader lib a.headerText (s.afterStatus a) s.mResponse sock₁).symm
  · intro h₁ h₂
    rcases completeHeader_answer (s := (s.afterStatus a).placed more' sock') lib rfl with
      ⟨s', hcomplete, hcode, hopts, hleft⟩ | ⟨hmoved, -⟩
    · exact ⟨_, s', hreceive.trans hcomplete, hcode, hopts, (hleft h₁ h₂).trans hbody⟩
    · rcases hmoved with hmoved | hmoved
      · exact absurd hmoved h₁
      · exact absurd hmoved h₂

theorem not_asyncReceivesFinal_of_refused {lib : HttpLib} (hempty : s.mResponse = [])
    (hrefused : s.asyncReceiveHeader lib = .returned (some .malformedStatusLine) s₁)
    (hcode : s₁.mStatusCode = 0 ∨ s₁.mStatusCode = 100) : ¬ s.AsyncReceivesFinal lib a := by
  rintro ⟨halone, -⟩
  have hcontent : ({ s with sock := a.piece } : HttpClient).content = a.text := by
    rw [content, hempty]
    exact a.content_piece
  obtain ⟨more, sock, hreceive, -⟩ := asyncReceiveHeader_answer lib hcontent
  have hsame := halone a.piece a.content_piece
  rw [hrefused, hreceive] at hsame
  rcases completeHeader_answer (s := ({ s with sock := a.piece }.afterStatus a).placed more sock) lib rfl with
    ⟨s', hcomplete, hstatus, -⟩ | ⟨-, hother⟩
  · rw [hcomplete] at hsame
    obtain ⟨hec, hplaced⟩ := Opening.returned.inj hsame
    have hcodes := congrArg mStatusCode hplaced
    dsimp only [placed] at hcodes
    have hzero : a.status = 0 := by
      have := a.status_ne
      omega
    rw [hzero] at hec
    cases hec
  · generalize completeHeader lib a.headerText (({ s with sock := a.piece }.afterStatus a).placed more sock) = ending at hsame hother
    cases ending with
    | returned ec s' =>
      obtain ⟨rfl, -⟩ := Opening.returned.inj hsame
      exact hother s' rfl
    | _ => cases hsame

/-- Both ways to receive a header end with the final answer as if it had come alone exactly if every interim answer comes in pieces of its own. -/
theorem receivesFinal_iff (lib : HttpLib) (s : HttpClient) (a : Answer) (reasons : List Str)
    (hchars : ∀ reason ∈ reasons, '\r' ∉ reason ∧ '\n' ∉ reason)
    (hget : s.mRequestOptsPriv.find requestMethod ≠ "POST".toList)
    (hcontent : s.sock.content = reasons.flatMap interim ++ a.text) :
    (s.ReceivesFinal lib.toCookieLib a ↔ InOwnPieces reasons s.sock.segs) ∧
      ({ s with mResponse := [] }.AsyncReceivesFinal lib a ↔ InOwnPieces reasons s.sock.segs) := by
  rcases receiveStatus_interims (s := { s with mResponse := [] }) a hchars hget (Nat.lt_succ_self _) rfl hcontent with
    ⟨hown, more, sock, hrest, hstatus⟩ | ⟨hnot, received, hstatus, s₁, rfl, hcode⟩
  · exact ⟨iff_of_true (receivesFinal_of_status hstatus hrest) hown,
      iff_of_true (asyncReceivesFinal_of_status rfl hstatus hrest) hown⟩
  · constructor
    · refine iff_of_false (not_receivesFinal_of_refused ⟨s₁, ?_, hcode⟩) hnot
      rw [receiveHeader]
      rw [hstatus]
    · refine iff_of_false (not_asyncReceivesFinal_of_refused rfl ?_ hcode) hnot
      rw [asyncReceiveHeader, handleStatus_eq, hstatus]
      rfl

end HttpClient

def readsFrom (pieces : List Str) (hne : ∀ piece ∈ pieces, piece ≠ []) : HttpClient :=
  { HttpClient.fresh with sock := ⟨pieces, hne⟩ }

theorem receivesFinal_of_two_pieces :
    (readsFrom ["HTTP/1.1 100 Continue\r\n\r\n".toList, "HTTP/1.1 200 OK\r\nA: b\r\n\r\nhi".toList] (by decide)).ReceivesFinal
        sampleLib.toCookieLib sampleAnswer ∧
      (readsFrom ["HTTP/1.1 100 Continue\r\n\r\n".toList, "HTTP/1.1 200 OK\r\nA: b\r\n\r\nhi".toList] (by decide)).AsyncReceivesFinal
        sampleLib sampleAnswer := by
  have hown : InOwnPieces ["Continue".toList]
      ["HTTP/1.1 100 Continue\r\n\r\n".toList, "HTTP/1.1 200 OK\r\nA: b\r\n\r\nhi".toList] :=
    ⟨by decide, ["HTTP/1.1 100 Continue\r\n\r\n".toList], _, rfl, by decide, by decide, trivial⟩
  obtain ⟨hsync, hasync⟩ := HttpClient.receivesFinal_iff sampleLib
    (readsFrom ["HTTP/1.1 100 Continue\r\n\r\n".toList, "HTTP/1.1 200 OK\r\nA: b\r\n\r\nhi".toList] (by decide)) sampleAnswer
    ["Continue".toList] (by decide) (by decide) (by decide)
  exact ⟨hsync.mpr hown, hasync.mpr hown⟩

def inOnePiece : HttpClient :=
  readsFrom ["HTTP/1.1 100 Continue\r\n\r\nHTTP/1.1 200 OK\r\nA: b\r\n\r\nhi".toList] (by decide)

/-- An interim answer that comes together with the final one: two letters of the final status line are lost. -/
theorem final_torn_in_one_piece :
    inOnePiece.sock.content = interim "Continue".toList ++ sampleAnswer.text ∧
      ¬ inOnePiece.ReceivesFinal sampleLib.toCookieLib sampleAnswer ∧ ¬ inOnePiece.AsyncReceivesFinal sampleLib sampleAnswer := by
  refine ⟨by decide, ?_, ?_⟩
  · obtain ⟨⟨ec, s₁⟩, hreceive, heq⟩ := map_eq_some_iff.mp (by decide :
      (inOnePiece.receiveHeader sampleLib.toCookieLib).map (fun r => (r.1, r.2.mStatusCode)) =
        some (some OpenErrc.malformedStatusLine, 0))
    obtain ⟨rfl, hcode⟩ := Prod.mk.inj heq
    exact HttpClient.not_receivesFinal_of_refused ⟨s₁, hreceive, .inl hcode⟩
  · obtain ⟨⟨ec, s₁⟩, hreceive, heq⟩ := map_eq_some_iff.mp (by decide :
      (inOnePiece.asyncReceiveHeader sampleLib).result.map (fun r => (r.1, r.2.mStatusCode)) =
        some (some OpenErrc.malformedStatusLine, 0))
    obtain ⟨rfl, hcode⟩ := Prod.mk.inj heq
    exact HttpClient.not_asyncReceivesFinal_of_refused rfl (Opening.eq_of_result hreceive) (.inl hcode)

end Avbot.Http
