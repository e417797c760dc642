import Avbot.Http.Open
import Avbot.Http.Answer

/-!
# Opening a URL with handlers

`http_stream::async_open` with its handlers, on the same events as `open`. Each handler is written with the read that it waits for, so that a chain of handlers becomes a loop.
-/

namespace Avbot.Http

open List SegmentedInput Scanner
open Httpd (Options cutLine)

def OpenErrc.invalidRedirect : OpenErrc := avhttp 12

namespace HttpClient

def asyncComposeRequest : CookieLib → Int → Str → Options → HttpClient → Request × HttpClient := composeRequestWith true

def asyncBuildRequest (lib : CookieLib) (now : Int) (s : HttpClient) : Option (Request × HttpClient) :=
  let (newUrl, opts) := takeOption s.mRequestOptsPriv HttpOptions.url []
  (s.resetRequest.replaceUrl newUrl).map (asyncComposeRequest lib now s.mUrl.host opts)

/-- `handle_status`. What it does with one status line is what `receive_header` does with it. -/
def handleStatus : Nat → HttpClient → Progress
  | 0, _ => .ended none
  | n + 1, s =>
    match s.receiveStatusLine with
    | .ended result => .ended result
    | .goesOn ec s =>
      if s.mStatusCode = 100 ∧ s.mRequestOptsPriv.find HttpOptions.requestMethod ≠ "POST".toList then handleStatus n s
      else .goesOn ec s

def endHeader (lib : CookieLib) (s : HttpClient) : Opening :=
  let close := s.mRequestOpts.find HttpOptions.connection = "close".toList ∨
    s.mResponseOpts.find HttpOptions.connection = "close".toList
  .returned (statusErrc s.mStatusCode.toNat) { s with
    mRedirects := 0
    mIsChunked := s.mIsChunked || s.mResponseOpts.find HttpOptions.transferEncoding = "chunked".toList
    mKeepAlive := s.mKeepAlive && !close
    mCookies := updateCookies lib s.mCookies s.mResponseOpts }

def redirecting (s : HttpClient) : HttpClient := { s.closeSock with mRedirects := s.mRedirects + 1 }

def followHeader (lib : HttpLib) (s : HttpClient) : Opening :=
  if s.mStatusCode = 301 ∨ s.mStatusCode = 302 then
    if s.redirecting.mRedirects ≤ s.mMaxRedirects then
      match Url.fromString s.mLocation with
      | none => .returned (some .invalidRedirect) s.redirecting
      | some u => s.redirecting.beginOpen lib u
    else s.redirecting.endHeader lib.toCookieLib
  else s.endHeader lib.toCookieLib

def located (s : HttpClient) (h : Headers) : HttpClient :=
  { s.storeHeaders h with mLocation := s.fixLocation h.known.location }

def completeHeader (lib : HttpLib) (headerString : Str) (s : HttpClient) : Opening :=
  let known : KnownHeaders := ⟨s.mContentType, s.mContentLength, s.mLocation⟩
  match parseHttpHeaders known s.mResponseOpts headerString with
  | none =>
    let h := (reached headersStep (.firstHeaderLineStart, ⟨known, s.mResponseOpts, [], []⟩) headerString).2
    .returned (some .malformedResponseHeaders) (s.storeHeaders h)
  | some (h, _) => (s.located h).followHeader lib

def notify : Received → Opening
  | none => .waiting
  | some (ec, s) => .returned ec s

def handleHeader (lib : HttpLib) : Nat → Str → HttpClient → Opening
  | 0, _, _ => .waiting
  | n + 1, headerString, s =>
    match s.readLine with
    | none => notify (s.readFails id)
    | some (line, s) =>
      let headerString := headerString ++ line ++ Str.crlf
      if line = [] then s.completeHeader lib headerString else handleHeader lib n headerString s

def asyncReceiveHeader (lib : HttpLib) (s : HttpClient) : Opening :=
  match handleStatus (s.content.length + 1) s with
  | .ended result => notify result
  | .goesOn _ s =>
    let s := { s with mResponseOpts := [(HttpOptions.statusCode, Str.decimalInt s.mStatusCode)] }
    if s.mStatusCode = 100 then .returned (statusErrc 100) s
    else handleHeader lib (s.content.length + 1) [] s

def handleRequest (lib : HttpLib) (hop : Hop) (s : HttpClient) : Opening :=
  let s := s.connectTo hop
  if hop.write.isSome then .returned hop.write s
  else if s.mFakeContinue then .returned (some .fakeContinue) s
  else asyncReceiveHeader lib { s with mResponse := [] }

end HttpClient

namespace OpenRun

def asyncStep : HttpLib → OpenRun → Hop → Option OpenRun := stepWith HttpClient.asyncBuildRequest HttpClient.handleRequest

end OpenRun

namespace HttpClient

variable {s : HttpClient}

theorem asyncBuildRequest_eq (lib : CookieLib) (now : Int) (hproxy : s.mProxy.type = .none) :
    s.asyncBuildRequest lib now = s.buildRequest lib now := by
  rw [asyncBuildRequest, buildRequest]
  apply Option.map_congr
  intro s₁ hs₁
  obtain ⟨u, opts, rfl⟩ := replaceUrl_spec hs₁
  have hthrough : ({ s.resetRequest with mUrl := u, mRequestOpts := opts } : HttpClient).throughProxy = false := by
    simp [throughProxy, resetRequest, hproxy]
  have hauth : ({ s.resetRequest with mUrl := u, mRequestOpts := opts } : HttpClient).auth = [] := by
    simp [auth, hthrough]
  unfold asyncComposeRequest composeRequest composeRequestWith
  simp only [hthrough, hauth, Bool.false_and, Bool.and_false, Bool.not_false, Bool.and_true, if_true, flatMap_nil, ite_self,
    append_nil]

theorem handleStatus_eq (n : Nat) (s : HttpClient) : handleStatus n s = receiveStatus n s := by
  induction n generalizing s with
  | zero => rfl
  | succ n ih =>
    rw [handleStatus, receiveStatus]
    cases s.receiveStatusLine with
    | ended result => rfl
    | goesOn ec s =>
      dsimp only
      by_cases hagain : s.mStatusCode = 100 ∧ s.mRequestOptsPriv.find HttpOptions.requestMethod ≠ "POST".toList
      · rw [if_pos hagain, if_neg (by tauto), ih]
      · rw [if_neg hagain, if_pos (by tauto)]

theorem asyncReceiveHeader_of_status (lib : HttpLib) {a : Answer} {more : Str} {sock : Pending Char}
    (hstatus : receiveStatus (s.content.length + 1) s =
      .goesOn (statusErrc a.status) ({ s with mStatusCode := a.status }.placed more sock))
    (hrest : more ++ sock.content = a.headerText ++ a.body) :
    ∃ more' sock', s.asyncReceiveHeader lib = completeHeader lib a.headerText ((s.afterStatus a).placed more' sock') ∧
      more' ++ sock'.content = a.body := by
  have hcontent : ((s.afterStatus a).placed more sock).content = a.headerLines.flatMap (· ++ Str.crlf) ++ (Str.crlf ++ a.body) := by
    rw [← append_assoc]
    exact hrest
  obtain ⟨more', sock', hlines, hbody, -⟩ := loop_lines (handleHeader lib) (completeHeader lib)
    (fun n headerString s line s' hread => by rw [handleHeader, hread]) [] a.headerLine_chars
    (headerLines_length_lt (s := (s.afterStatus a).placed more sock) hrest) hcontent
  refine ⟨more', sock', ?_, hbody⟩
  rw [asyncReceiveHeader, handleStatus_eq, hstatus]
  exact (if_neg a.status_ne).trans hlines

theorem asyncReceiveHeader_answer (lib : HttpLib) {a : Answer} (hcontent : s.content = a.text) :
    ∃ more sock, s.asyncReceiveHeader lib = completeHeader lib a.headerText ((s.afterStatus a).placed more sock) ∧
      more ++ sock.content = a.body := by
  have hsplit : s.content = a.statusLine ++ (Str.crlf ++ (a.headerText ++ a.body)) := by
    rw [hcontent, Answer.text, append_assoc, append_assoc]
  obtain ⟨more, sock, hstatus, hrest, -⟩ := receiveStatus_answer a (Nat.succ_pos _) hsplit
  exact asyncReceiveHeader_of_status lib hstatus hrest

variable {lib : HttpLib}

theorem completeHeader_of_parse {text rest : Str} {h : Headers}
    (hparse : parseHttpHeaders ⟨s.mContentType, s.mContentLength, s.mLocation⟩ s.mResponseOpts text = some (h, rest)) :
    completeHeader lib text s = (s.located h).followHeader lib := by
  rw [completeHeader]
  rw [hparse]

def Follows (s : HttpClient) : Prop := (s.mStatusCode = 301 ∨ s.mStatusCode = 302) ∧ s.mRedirects + 1 ≤ s.mMaxRedirects

theorem followHeader_of_follows (hfollows : s.Follows) :
    s.followHeader lib = match Url.fromString s.mLocation with
      | none => .returned (some .invalidRedirect) s.redirecting
      | some u => s.redirecting.beginOpen lib u := by
  rw [followHeader, if_pos hfollows.1]
  exact if_pos hfollows.2

def closeMoved (s : HttpClient) : HttpClient := if s.mStatusCode = 301 ∨ s.mStatusCode = 302 then s.redirecting else s

theorem followHeader_of_not_follows (hends : ¬ s.Follows) :
    s.followHeader lib = s.closeMoved.endHeader lib.toCookieLib := by
  rw [followHeader, closeMoved]
  by_cases hmoved : s.mStatusCode = 301 ∨ s.mStatusCode = 302
  · rw [if_pos hmoved, if_pos hmoved]
    exact if_neg fun hmore => hends ⟨hmoved, hmore⟩
  · rw [if_neg hmoved, if_neg hmoved]

end HttpClient

def Opening.result : Opening → HttpClient.Received
  | .returned ec s => some (ec, s)
  | _ => none

theorem Opening.eq_of_result {phase : Opening} {ec : Option OpenErrc} {s : HttpClient} (h : phase.result = some (ec, s)) :
    phase = .returned ec s := by
  cases phase with
  | returned ec' s' =>
    obtain ⟨rfl, rfl⟩ := Prod.mk.inj (Option.some.inj h)
    rfl
  | _ => cases h

def Opening.apart : Opening → Opening
  | .connecting s => .connecting (s.placed [] .nil)
  | .returned ec s => .returned ec (s.placed [] .nil)
  | .waiting => .waiting
  | .thrown => .thrown

namespace HttpClient

variable {s : HttpClient}

theorem apart_followHeader (lib : HttpLib) (s : HttpClient) (more : Str) (sock : Pending Char) :
    ((s.placed more sock).followHeader lib).apart = (s.followHeader lib).apart := by
  by_cases hfollows : s.Follows
  · rw [followHeader_of_follows hfollows, followHeader_of_follows (s := s.placed more sock) hfollows]
    show Opening.apart (match Url.fromString s.mLocation with | none => _ | some u => _) = _
    cases Url.fromString s.mLocation <;> rfl
  · rw [followHeader_of_not_follows hfollows, followHeader_of_not_follows (s := s.placed more sock) hfollows]
    rw [closeMoved, closeMoved]
    by_cases hmoved : s.mStatusCode = 301 ∨ s.mStatusCode = 302
    · rw [if_pos hmoved, if_pos (by exact hmoved)]
      rfl
    · rw [if_neg hmoved, if_neg (by exact hmoved)]
      rfl

theorem apart_completeHeader (lib : HttpLib) (text : Str) (s : HttpClient) (more : Str) (sock : Pending Char) :
    (completeHeader lib text (s.placed more sock)).apart = (completeHeader lib text s).apart := by
  rw [completeHeader, completeHeader]
  dsimp only [placed]
  split
  case h_1 => rfl
  case h_2 h rest hparse => exact apart_followHeader lib (s.located h) more sock

end HttpClient

end Avbot.Http
