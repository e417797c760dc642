import Avbot.Http.Chunked
import Avbot.Http.Cookie
import Avbot.Http.Url
import Avbot.Httpd.ReadRequest
import Avbot.Lib.Base64

/-!
# A request and the header of its answer

`http_stream::request` and `receive_header`, without compression. The request takes its parts from the options of the user or from defaults; the cookies come from the jar of the stream, and what the answer sets goes back into it. Assertions, which only a debug build has, are left out.
-/

namespace Avbot.Http

open List Option SegmentedInput Scanner Base64
open Httpd (Options cutLine)

/-- The errors of the stream. Those of `avhttp` have the status codes among their values. -/
inductive OpenErrc where
  | avhttp (value : Nat)
  | system (value : Nat)
  | eof
  | alreadyOpen
  deriving DecidableEq, Repr

namespace OpenErrc

def malformedStatusLine : OpenErrc := avhttp 1
def malformedResponseHeaders : OpenErrc := avhttp 2
def movedPermanently : OpenErrc := avhttp 301
def found : OpenErrc := avhttp 302
def fakeContinue : OpenErrc := avhttp 1008
def operationNotSupported : OpenErrc := system 95
def badDescriptor : OpenErrc := system 9

end OpenErrc

namespace HttpOptions

def requestMethod : Str := "_request_method".toList
def httpVersion : Str := "_http_version".toList
def requestBody : Str := "_request_body".toList
def statusCode : Str := "_status_code".toList
def path : Str := "_path".toList
def url : Str := "_url".toList
def host : Str := "Host".toList
def accept : Str := "Accept".toList
def userAgent : Str := "User-Agent".toList
def connection : Str := "Connection".toList
def proxyConnection : Str := "Proxy-Connection".toList
def transferEncoding : Str := "Transfer-Encoding".toList

end HttpOptions

inductive ProxyType where
  | none
  | socks4
  | socks5
  | socks5Pw
  | http
  | httpPw
  deriving DecidableEq

structure ProxySettings where
  type : ProxyType
  username : Str
  password : Str

structure HttpClient extends HttpStream where
  mProtocol : Str
  mUrl : Url
  mEntryUrl : Url
  mContentType : Str
  mStatusCode : Int
  mLocation : Str
  mRedirects : Nat
  mMaxRedirects : Nat
  mProxy : ProxySettings
  mRequestOptsPriv : Options
  mFakeContinue : Bool
  mRequestOpts : Options
  mResponseOpts : Options
  mCookies : Cookies
  /-- The error of a read after the last byte, without one the peer stays silent. -/
  ending : Option OpenErrc

structure Request where
  host : Str
  before : Str
  cookies : List Cookie
  after : Str

def Request.text (r : Request) : Str :=
  let cookie := Cookie.line r.cookies
  r.before ++ (if cookie = [] then [] else "Cookie: ".toList ++ cookie ++ Str.crlf) ++ r.after

/-- `find` and `remove`: the value or the default, and the options that are left. -/
def takeOption (opts : Options) (key default : Str) : Str × Options :=
  match opts.find? key with
  | some val => (val, opts.remove key)
  | none => (default, opts)

/-- `detail::encode_base64`. Where nothing has to be filled up it adds four `=`. -/
def encodeBase64 (s : Str) : Str :=
  let text := ((sextets (s.map Char.toNat ++ [0, 0])).map encodeChar).take ((8 * s.length + 5) / 6)
  text ++ List.replicate (4 - text.length % 4) '='

namespace HttpClient

def https (s : HttpClient) : Bool := s.mProtocol = "https".toList

def throughProxy (s : HttpClient) : Bool := (s.mProxy.type = .httpPw ∨ s.mProxy.type = .http) ∧ !s.https

def auth (s : HttpClient) : Str :=
  if !s.throughProxy then []
  else if s.mProxy.type = .httpPw then "Basic ".toList ++ encodeBase64 (s.mProxy.username ++ [':'] ++ s.mProxy.password)
  else if s.mUrl.userInfo ≠ [] then "Basic ".toList ++ encodeBase64 s.mUrl.userInfo
  else []

def replaceUrl (s : HttpClient) (newUrl : Str) : Option HttpClient :=
  if newUrl = [] then some s
  else (Url.fromString newUrl).map fun u =>
    { s with mUrl := u, mRequestOpts := s.mRequestOpts.insert HttpOptions.url newUrl }

def headerLine (name value : Str) : Str := name ++ ": ".toList ++ value ++ Str.crlf

def isInternal (name : Str) : Bool :=
  name ∈ [HttpOptions.path, HttpOptions.url, HttpOptions.requestMethod, HttpOptions.httpVersion,
    HttpOptions.requestBody, HttpOptions.statusCode]

/-- The request of `request` or `async_request`. They put the authorization for a proxy in different places, and only `async_request` does not keep a connection alive that a proxy will close. -/
def composeRequestWith (asynchronous : Bool) (lib : CookieLib) (now : Int) (connected : Str) (opts : Options)
    (s : HttpClient) : Request × HttpClient :=
  let (requestMethod, opts) := takeOption opts HttpOptions.requestMethod "GET".toList
  let (httpVersion, opts) := takeOption opts HttpOptions.httpVersion "HTTP/1.1".toList
  let (host, opts) := takeOption opts HttpOptions.host (s.mUrl.toString { host := true, port := true })
  let (accept, opts) := takeOption opts HttpOptions.accept "text/html, application/xhtml+xml, */*".toList
  let (userAgent, opts) := takeOption opts HttpOptions.userAgent "avhttp/2.9.9".toList
  let connectionKey := if s.throughProxy then HttpOptions.proxyConnection else HttpOptions.connection
  let (connection, opts) := takeOption opts connectionKey "close".toList
  let (body, opts) := takeOption opts HttpOptions.requestBody []
  let other := opts.filter fun o => !isInternal o.1
  let target := s.mUrl.toString (if s.throughProxy then .all else { path := true, query := true, fragment := true })
  let authorization := if s.auth = [] then [] else [("Proxy-Authorization".toList, s.auth)]
  let authorized := authorization.flatMap fun o => headerLine o.1 o.2
  let request : Request :=
    { host := connected
      before := requestMethod ++ [' '] ++ target ++ [' '] ++ httpVersion ++ Str.crlf ++ headerLine HttpOptions.host host ++
        headerLine HttpOptions.accept accept ++ (if asynchronous then authorized else []) ++
        headerLine HttpOptions.userAgent userAgent
      -- the jar is asked without a domain and without a path
      cookies := lib.selected s.mCookies s.https now [] []
      after := headerLine connectionKey connection ++ (if asynchronous then [] else authorized) ++
        other.flatMap (fun o => headerLine o.1 o.2) ++ Str.crlf ++ body }
  (request, { s with
    mKeepAlive := s.mKeepAlive && !(asynchronous && s.throughProxy && connection = "close".toList)
    mRequestOpts := s.mRequestOpts ++
      [(HttpOptions.requestMethod, requestMethod), (HttpOptions.httpVersion, httpVersion), (HttpOptions.host, host),
        (HttpOptions.accept, accept), (HttpOptions.userAgent, userAgent)] ++
      authorization ++ [(connectionKey, connection), (HttpOptions.requestBody, body)] ++ other ++ [(HttpOptions.path, target)] })

def composeRequest : CookieLib → Int → Str → Options → HttpClient → Request × HttpClient := composeRequestWith false

def resetRequest (s : HttpClient) : HttpClient :=
  { s with
    mRequestOpts := [], mIsChunkedEnd := false, mSkipCrlf := true, mIsChunked := false, mKeepAlive := true, mBodySize := 0 }

/-- The request that `request` writes. Without an answer the option `_url` is no URL, and the function throws. -/
def buildRequest (lib : CookieLib) (now : Int) (s : HttpClient) : Option (Request × HttpClient) :=
  let (newUrl, opts) := takeOption s.mRequestOptsPriv HttpOptions.url []
  (s.resetRequest.replaceUrl newUrl).map (composeRequest lib now s.mUrl.host opts)

/-- The error and the stream when `receive_header` returns; nothing while the peer is silent. -/
abbrev Received := Option (Option OpenErrc × HttpClient)

inductive Progress where
  | ended (result : Received)
  | goesOn (ec : Option OpenErrc) (s : HttpClient)

def readFails (s : HttpClient) (ec : OpenErrc → OpenErrc) : Received :=
  s.ending.map fun e => (some (ec e), { s with mResponse := s.content, sock := .nil })

/-- `make_error_code` of a status. The status zero makes a code that is no error. -/
def statusErrc (status : Nat) : Option OpenErrc :=
  if status = 200 ∨ status = 206 ∨ status = 0 then none else some (.avhttp status)

/-- One turn of the loop that reads a status line. After a status 100 two bytes more than the empty line are taken from the buffer. -/
def receiveStatusLine (s : HttpClient) : Progress :=
  match s.sock.readUntil (fun buf => (cutLine buf).isSome) s.mResponse with
  | none => .ended (s.readFails id)
  | some (mResponse, sock) =>
    let s := { s with mResponse := mResponse, sock := sock }
    match parseHttpStatusLine mResponse with
    | none =>
      let status := (reached statusLineStep (.httpVersionH, ⟨0, 0, 0, []⟩) mResponse).2.status
      .ended (some (some .malformedStatusLine, { s with mStatusCode := status }))
    | some (line, tempbuf) =>
      let s := { s with mStatusCode := line.status }
      if line.status ≠ 100 then .goesOn (statusErrc line.status) { s with mResponse := tempbuf }
      else if tempbuf.take 2 ≠ Str.crlf then .ended (some (some .malformedStatusLine, s))
      else .goesOn (statusErrc line.status) { s with mResponse := tempbuf.drop 4 }

def receiveStatus : Nat → HttpClient → Progress
  | 0, _ => .ended none
  | n + 1, s =>
    match s.receiveStatusLine with
    | .goesOn ec s =>
      if s.mStatusCode ≠ 100 ∨ s.mRequestOptsPriv.find HttpOptions.requestMethod = "POST".toList then .goesOn ec s
      else receiveStatus n s
    | .ended result => .ended result

def readLine (s : HttpClient) : Option (Str × HttpClient) :=
  (s.sock.readUntil (fun buf => (cutLine buf).isSome) s.mResponse).bind fun read =>
    (cutLine read.1).map fun cut => (cut.1, { s with mResponse := cut.2, sock := read.2 })

def receiveLines (finish : Str → HttpClient → Option OpenErrc × HttpClient) : Nat → Str → HttpClient → Received
  | 0, _, _ => none
  | n + 1, headerString, s =>
    match s.readLine with
    | none => s.readFails fun e => if e = .eof then .malformedResponseHeaders else e
    | some (line, s) =>
      let headerString := headerString ++ line ++ Str.crlf
      if line = [] then some (finish headerString s) else receiveLines finish n headerString s

def fixLocation (s : HttpClient) (location : Str) : Str :=
  if location = [] ∨ "://".toList <:+: location then location
  else s.mUrl.toString { protocol := true, host := true, port := true } ++ ['/'] ++ location

def storeHeaders (s : HttpClient) (h : Headers) : HttpClient :=
  { s with
    mContentType := h.known.contentType, mContentLength := h.known.contentLength, mLocation := h.known.location,
    mResponseOpts := h.headers }

def updateCookies (lib : CookieLib) (jar : Cookies) (opts : Options) : Cookies :=
  opts.foldl (fun jar o => if Str.toLower o.1 = "set-cookie".toList then lib.update jar o.2 else jar) jar

def finishHeader (lib : CookieLib) (ec : Option OpenErrc) (headerString : Str) (s : HttpClient) :
    Option OpenErrc × HttpClient :=
  let known : KnownHeaders := ⟨s.mContentType, s.mContentLength, s.mLocation⟩
  match parseHttpHeaders known s.mResponseOpts headerString with
  | none =>
    let h := (reached headersStep (.firstHeaderLineStart, ⟨known, s.mResponseOpts, [], []⟩) headerString).2
    (some .malformedResponseHeaders, s.storeHeaders h)
  | some (h, _) =>
    let s := s.storeHeaders h
    let close := s.mRequestOpts.find HttpOptions.connection = "close".toList ∨
      s.mResponseOpts.find HttpOptions.connection = "close".toList
    (ec, { s with
      mLocation := s.fixLocation s.mLocation
      mIsChunked := s.mIsChunked || s.mResponseOpts.find HttpOptions.transferEncoding = "chunked".toList
      mKeepAlive := s.mKeepAlive && !close
      mCookies := updateCookies lib s.mCookies s.mResponseOpts })

def receiveHeader (lib : CookieLib) (s : HttpClient) : Received :=
  let s := { s with mResponse := [] }
  match receiveStatus (s.content.length + 1) s with
  | .ended result => result
  | .goesOn ec s =>
    let s := { s with mResponseOpts := [(HttpOptions.statusCode, Str.decimalInt s.mStatusCode)] }
    if s.mStatusCode = 100 then some (statusErrc 100, s)
    else receiveLines (finishHeader lib ec) (s.content.length + 1) [] s

def Advances (s s' : HttpClient) : Prop :=
  ∃ mResponse sock status, s' = { s with mResponse := mResponse, sock := sock, mStatusCode := status }

variable {s s' : HttpClient} {ec : Option OpenErrc}

theorem Advances.trans {s'' : HttpClient} (h : s.Advances s') (h' : s'.Advances s'') : s.Advances s'' := by
  obtain ⟨r, k, c, rfl⟩ := h
  obtain ⟨r', k', c', rfl⟩ := h'
  exact ⟨r', k', c', rfl⟩

theorem readFails_spec {f : OpenErrc → OpenErrc} (hfails : s.readFails f = some (ec, s')) :
    ec ≠ none ∧ s.Advances s' := by
  obtain ⟨e, -, heq⟩ := map_eq_some_iff.mp hfails
  obtain ⟨rfl, rfl⟩ := Prod.mk.inj heq
  exact ⟨by simp, _, _, _, rfl⟩

theorem receiveStatusLine_ended (hline : s.receiveStatusLine = .ended (some (ec, s'))) : ec ≠ none ∧ s.Advances s' := by
  rw [receiveStatusLine] at hline
  split at hline
  case h_1 => exact readFails_spec (Progress.ended.inj hline)
  case h_2 mResponse sock hread =>
    split at hline
    case h_1 =>
      obtain ⟨rfl, rfl⟩ := Prod.mk.inj (some.inj (Progress.ended.inj hline))
      exact ⟨by simp, _, _, _, rfl⟩
    case h_2 line tempbuf hparse =>
      split at hline
      · cases hline
      · split at hline
        · obtain ⟨rfl, rfl⟩ := Prod.mk.inj (some.inj (Progress.ended.inj hline))
          exact ⟨by simp, _, _, _, rfl⟩
        · cases hline

theorem receiveStatusLine_goesOn (hline : s.receiveStatusLine = .goesOn ec s') :
    s.Advances s' ∧ s'.content.length < s.content.length := by
  rw [receiveStatusLine] at hline
  split at hline
  case h_1 => cases hline
  case h_2 mResponse sock hread =>
    have hcontent : s.content = mResponse ++ sock.content := (Pending.readUntil_spec hread).2
    split at hline
    case h_1 => cases hline
    case h_2 line tempbuf hparse =>
      have hshort := length_lt_of_scan hparse
      have hlength : ∀ n, (tempbuf.drop n ++ sock.content).length < s.content.length := by
        intro n
        rw [hcontent, length_append, length_append, length_drop]
        omega
      split at hline
      · obtain ⟨-, rfl⟩ := Progress.goesOn.inj hline
        exact ⟨⟨_, _, _, rfl⟩, hlength 0⟩
      · split at hline
        · cases hline
        · obtain ⟨-, rfl⟩ := Progress.goesOn.inj hline
          exact ⟨⟨_, _, _, rfl⟩, hlength 4⟩

variable {m n : Nat} {lib : CookieLib}

theorem receiveStatus_ended (hstatus : receiveStatus n s = .ended (some (ec, s'))) : ec ≠ none ∧ s.Advances s' := by
  induction n generalizing s with
  | zero => cases hstatus
  | succ n ih =>
    rw [receiveStatus] at hstatus
    split at hstatus
    case h_1 ec₁ s₁ hline =>
      split at hstatus
      · cases hstatus
      · obtain ⟨hec, hrest⟩ := ih hstatus
        exact ⟨hec, (receiveStatusLine_goesOn hline).1.trans hrest⟩
    case h_2 result hline =>
      rw [hstatus] at hline
      exact receiveStatusLine_ended hline

theorem receiveStatus_goesOn (hstatus : receiveStatus n s = .goesOn ec s') : s.Advances s' := by
  induction n generalizing s with
  | zero => cases hstatus
  | succ n ih =>
    rw [receiveStatus] at hstatus
    split at hstatus
    case h_1 ec₁ s₁ hline =>
      have hfirst := (receiveStatusLine_goesOn hline).1
      split at hstatus
      · obtain ⟨-, rfl⟩ := Progress.goesOn.inj hstatus
        exact hfirst
      · exact hfirst.trans (ih hstatus)
    case h_2 => cases hstatus

theorem readLine_spec {line : Str} (hread : s.readLine = some (line, s')) :
    s.Advances s' ∧ s'.content.length < s.content.length := by
  obtain ⟨⟨mResponse, sock⟩, huntil, hread⟩ := bind_eq_some_iff.mp hread
  obtain ⟨⟨cut, rest⟩, hcut, heq⟩ := map_eq_some_iff.mp hread
  obtain ⟨rfl, rfl⟩ := Prod.mk.inj heq
  have hcontent : s.content = mResponse ++ sock.content := (Pending.readUntil_spec huntil).2
  have hsplit := Httpd.eq_append_of_cutLine hcut
  refine ⟨⟨_, _, _, rfl⟩, ?_⟩
  dsimp only at hsplit
  show (rest ++ sock.content).length < s.content.length
  rw [hcontent, hsplit]
  simp only [length_append, length_cons]
  omega

theorem receiveLines_cases {finish : Str → HttpClient → Option OpenErrc × HttpClient} {headerString : Str}
    (hlines : receiveLines finish n headerString s = some (ec, s')) :
    (ec ≠ none ∧ s.Advances s') ∨ ∃ header s₁, s.Advances s₁ ∧ finish header s₁ = (ec, s') := by
  induction n generalizing s headerString with
  | zero => simp [receiveLines] at hlines
  | succ n ih =>
    rw [receiveLines] at hlines
    split at hlines
    case h_1 => exact .inl (readFails_spec hlines)
    case h_2 line s₁ hread =>
      have hfirst := (readLine_spec hread).1
      split at hlines
      · exact .inr ⟨_, s₁, hfirst, some.inj hlines⟩
      · rcases ih hlines with ⟨hec, hrest⟩ | ⟨header, s₂, hrest, hfinish⟩
        · exact .inl ⟨hec, hfirst.trans hrest⟩
        · exact .inr ⟨header, s₂, hfirst.trans hrest, hfinish⟩

theorem receiveHeader_cases (hheader : s.receiveHeader lib = some (ec, s')) :
    (ec ≠ none ∧ ∃ opts, { s with mResponseOpts := opts }.Advances s') ∨
    ∃ status header s₁ ec₁, { s with mResponseOpts := [(HttpOptions.statusCode, status)] }.Advances s₁ ∧
      finishHeader lib ec₁ header s₁ = (ec, s') := by
  rw [receiveHeader] at hheader
  dsimp only at hheader
  split at hheader
  case h_1 result hstatus =>
    rw [hheader] at hstatus
    obtain ⟨hec, r, k, c, rfl⟩ := receiveStatus_ended hstatus
    exact .inl ⟨hec, s.mResponseOpts, r, k, c, rfl⟩
  case h_2 ec₁ s₁ hstatus =>
    obtain ⟨r, k, c, rfl⟩ := receiveStatus_goesOn hstatus
    split at hheader
    · obtain ⟨rfl, rfl⟩ := Prod.mk.inj (some.inj hheader)
      exact .inl ⟨by decide, [(HttpOptions.statusCode, Str.decimalInt c)], r, k, c, rfl⟩
    · rcases receiveLines_cases hheader with ⟨hec, hrest⟩ | ⟨header, s₂, hrest, hfinish⟩
      · obtain ⟨r', k', c', rfl⟩ := hrest
        exact .inl ⟨hec, [(HttpOptions.statusCode, Str.decimalInt c)], r', k', c', rfl⟩
      · obtain ⟨r', k', c', rfl⟩ := hrest
        exact .inr ⟨Str.decimalInt c, header, _, ec₁, ⟨r', k', c', rfl⟩, hfinish⟩

theorem replaceUrl_spec {newUrl : Str} (hreplace : s.replaceUrl newUrl = some s') :
    ∃ u opts, s' = { s with mUrl := u, mRequestOpts := opts } := by
  rw [replaceUrl] at hreplace
  split at hreplace
  · obtain rfl := some.inj hreplace
    exact ⟨_, _, rfl⟩
  · obtain ⟨u, -, rfl⟩ := map_eq_some_iff.mp hreplace
    exact ⟨u, _, rfl⟩

/-- A request is for the host of the connection, with the cookies of the jar. It changes no more than `resetRequest` does. -/
theorem buildRequest_spec {now : Int} {request : Request} (hbuild : s.buildRequest lib now = some (request, s')) :
    request.host = s.mUrl.host ∧ request.cookies = lib.selected s.mCookies s.https now [] [] ∧
      ∃ u opts, s' = { s.resetRequest with mUrl := u, mRequestOpts := opts } := by
  obtain ⟨s₁, hreplace, hcompose⟩ := map_eq_some_iff.mp hbuild
  obtain ⟨rfl, rfl⟩ := Prod.mk.inj hcompose
  obtain ⟨u, opts, rfl⟩ := replaceUrl_spec hreplace
  exact ⟨rfl, rfl, u, _, rfl⟩

end HttpClient

end Avbot.Http
