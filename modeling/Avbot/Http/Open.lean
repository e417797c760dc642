import Avbot.Http.Request
import Avbot.Lib.EventMachine

/-!
# Opening a URL

`http_stream::open` as a machine. What the network does between one request and the next is an event. An answer 301 or 302 opens the location next, up to the number of redirects that is allowed. The jar belongs to the stream and not to a host: a request asks it for all cookies.
-/

namespace Avbot.Http

open Option SegmentedInput

structure HttpLib extends CookieLib where
  enableOpenssl : Bool

structure Hop where
  /-- The error of resolving, connecting and shaking hands, if there is one. -/
  connect : Option OpenErrc
  now : Int
  write : Option OpenErrc
  sock : Pending Char
  ending : Option OpenErrc

inductive Opening where
  | connecting (s : HttpClient)
  | waiting
  | returned (ec : Option OpenErrc) (s : HttpClient)
  /-- The location or the option `_url` is no URL. -/
  | thrown

structure OpenRun where
  sent : List Request
  phase : Opening

namespace HttpClient

def resetOpen (s : HttpClient) (u : Url) : HttpClient :=
  { s with
    mEntryUrl := if s.mUrl.toString .all = [] then u else s.mEntryUrl
    mProtocol := u.protocol, mUrl := u, mContentType := [], mStatusCode := 0, mContentLength := -1, mBodySize := 0,
    mResponse := [], mSkipCrlf := true, mIsChunked := false }

def beginOpen (lib : HttpLib) (s : HttpClient) (u : Url) : Opening :=
  let s := s.resetOpen u
  if s.mProtocol ≠ "http".toList ∧ ¬ (lib.enableOpenssl ∧ s.mProtocol = "https".toList) then
    .returned (some .operationNotSupported) s
  else .connecting s

def closeSock (s : HttpClient) : HttpClient := { s with sock := .nil, closed := false, ending := some .badDescriptor }

def finishOpen (lib : HttpLib) (httpCode : Option OpenErrc) (s : HttpClient) : Opening :=
  if httpCode = some .movedPermanently ∨ httpCode = some .found then
    let s := { s.closeSock with mRedirects := s.mRedirects + 1 }
    if s.mRedirects ≤ s.mMaxRedirects then
      match Url.fromString s.mLocation with
      | none => .thrown
      | some u => s.beginOpen lib u
    else .returned httpCode { s with mRedirects := 0 }
  else .returned httpCode { s with mRedirects := 0 }

def connectTo (hop : Hop) (s : HttpClient) : HttpClient :=
  { s with sock := hop.sock, ending := hop.ending, closed := decide (hop.ending = some OpenErrc.eof) }

def exchange (lib : HttpLib) (hop : Hop) (s : HttpClient) : Opening :=
  let s := s.connectTo hop
  if hop.write.isSome then s.finishOpen lib hop.write
  else if s.mFakeContinue then s.finishOpen lib (some .fakeContinue)
  else
    match s.receiveHeader lib.toCookieLib with
    | none => .waiting
    | some (httpCode, s) => s.finishOpen lib httpCode

end HttpClient

namespace OpenRun

def start (lib : HttpLib) (s : HttpClient) (u : Url) : OpenRun := ⟨[], s.beginOpen lib u⟩

/-- One connection of `open` or `async_open`, with the functions that make the request and go on with the answer. -/
def stepWith (build : CookieLib → Int → HttpClient → Option (Request × HttpClient)) (talk : HttpLib → Hop → HttpClient → Opening)
    (lib : HttpLib) (r : OpenRun) (hop : Hop) : Option OpenRun :=
  match r.phase with
  | .connecting s =>
    match hop.connect with
    | some ec => some { r with phase := .returned (some ec) s }
    | none =>
      match build lib.toCookieLib hop.now s with
      | none => some { r with phase := .thrown }
      | some (request, s) => some ⟨r.sent ++ [request], talk lib hop s⟩
  | _ => none

def step : HttpLib → OpenRun → Hop → Option OpenRun := stepWith HttpClient.buildRequest HttpClient.exchange

end OpenRun

def openUrl (lib : HttpLib) (s : HttpClient) (u : Url) (hops : List Hop) : Option OpenRun :=
  EventMachine.run (OpenRun.step lib) (.start lib s u) hops

/-- A cookie of this domain is for the host: it has no domain, or the domain is the host, or it starts with a dot and what follows is the host or its last labels. -/
def Covers (domain host : Str) : Prop :=
  domain = [] ∨ domain = host ∨ domain.head? = some '.' ∧ (domain.tail = host ∨ domain <:+ host)

instance (domain host : Str) : Decidable (Covers domain host) :=
  inferInstanceAs (Decidable (domain = [] ∨ domain = host ∨ domain.head? = some '.' ∧ (domain.tail = host ∨ domain <:+ host)))

/-- If a request is made, every cookie that it can get is for the host. -/
def Opening.JarForHost (lib : CookieLib) : Opening → Hop → Prop
  | .connecting s, hop => hop.connect = none → (s.buildRequest lib hop.now).isSome →
      ∀ c ∈ s.mCookies.cookies, c.live s.https hop.now → Covers c.domain s.mUrl.host
  | _, _ => True

instance (lib : CookieLib) : ∀ (phase : Opening) (hop : Hop), Decidable (phase.JarForHost lib hop)
  | .connecting s, hop => inferInstanceAs (Decidable (hop.connect = none → (s.buildRequest lib hop.now).isSome →
      ∀ c ∈ s.mCookies.cookies, c.live s.https hop.now → Covers c.domain s.mUrl.host))
  | .waiting, _ => .isTrue trivial
  | .returned _ _, _ => .isTrue trivial
  | .thrown, _ => .isTrue trivial

namespace OpenRun

def OwnCookies (r : OpenRun) : Prop := ∀ request ∈ r.sent, ∀ c ∈ request.cookies, Covers c.domain request.host

instance (r : OpenRun) : Decidable r.OwnCookies :=
  inferInstanceAs (Decidable (∀ request ∈ r.sent, ∀ c ∈ request.cookies, Covers c.domain request.host))

variable {lib : HttpLib} {r r' : OpenRun} {hop : Hop}

theorem stepWith_cases {build : CookieLib → Int → HttpClient → Option (Request × HttpClient)}
    {talk : HttpLib → Hop → HttpClient → Opening} (hstep : stepWith build talk lib r hop = some r') :
    (∃ ending, (ending = .thrown ∨ ∃ ec s, ending = .returned (some ec) s) ∧ r' = ⟨r.sent, ending⟩) ∨
    ∃ s request s', r.phase = .connecting s ∧ hop.connect = none ∧
      build lib.toCookieLib hop.now s = some (request, s') ∧ r' = ⟨r.sent ++ [request], talk lib hop s'⟩ := by
  rw [stepWith] at hstep
  split at hstep
  case h_1 s hphase =>
    split at hstep
    case h_1 ec hconnect =>
      obtain rfl := some.inj hstep
      exact .inl ⟨_, .inr ⟨ec, s, rfl⟩, rfl⟩
    case h_2 hconnect =>
      split at hstep
      case h_1 =>
        obtain rfl := some.inj hstep
        exact .inl ⟨_, .inl rfl, rfl⟩
      case h_2 request s' hbuild =>
        obtain rfl := some.inj hstep
        exact .inr ⟨s, request, s', hphase, hconnect, hbuild, rfl⟩
  case h_2 => simp at hstep

theorem ownCookies_step (hown : r.OwnCookies) (hjar : r.phase.JarForHost lib.toCookieLib hop)
    (hstep : step lib r hop = some r') : r'.OwnCookies := by
  rcases stepWith_cases hstep with ⟨ending, -, rfl⟩ | ⟨s, request, s', hphase, hconnect, hbuild, rfl⟩
  · exact hown
  · obtain ⟨hhost, hcookies, -⟩ := HttpClient.buildRequest_spec hbuild
    intro sent hsent
    rcases List.mem_append.mp hsent with hold | hnew
    · exact hown sent hold
    · obtain rfl := List.mem_singleton.mp hnew
      intro c hc
      rw [hcookies] at hc
      obtain ⟨hmem, hlive, -⟩ := lib.toCookieLib.of_mem_selected hc
      rw [hphase] at hjar
      rw [hhost]
      exact hjar hconnect (by rw [hbuild]; rfl) c hmem hlive

end OpenRun

/-- If the jar is fit for the host whenever a request is made, every request carries only cookies for its host. -/
theorem openUrl_ownCookies (lib : HttpLib) (s : HttpClient) (u : Url) (hops : List Hop) {r : OpenRun}
    (hrun : openUrl lib s u hops = some r)
    (hjar : EventMachine.Meets (OpenRun.step lib) (fun r hop => r.phase.JarForHost lib.toCookieLib hop) (.start lib s u) hops) : r.OwnCookies :=
  EventMachine.invariant_of_meets (fun _ _ _ hown hfit hstep => OpenRun.ownCookies_step hown hfit hstep)
    (fun _ hsent => absurd hsent List.not_mem_nil) hjar hrun

def HttpClient.fresh : HttpClient where
  mIsChunked := false
  mSkipCrlf := true
  mIsChunkedEnd := false
  mKeepAlive := true
  mChunkedSize := 0
  mContentLength := 0
  mBodySize := 0
  mResponse := []
  sock := .nil
  closed := false
  mProtocol := []
  mUrl := .empty
  mEntryUrl := .empty
  mContentType := []
  mStatusCode := -1
  mLocation := []
  mRedirects := 0
  mMaxRedirects := 5
  mProxy := ⟨.none, [], []⟩
  mRequestOptsPriv := []
  mFakeContinue := false
  mRequestOpts := []
  mResponseOpts := []
  mCookies := ⟨[], []⟩
  ending := none

def sampleLib : HttpLib := { CookieLib.byInsertion (fun _ => none) (fun a b => a = b) with enableOpenssl := true }

def redirectTo (location domain : String) : Hop :=
  ⟨none, 0, none, ⟨["HTTP/1.1 302 Found\r\nLocation: ".toList, location.toList ++ "\r\nSet-Cookie: sid=1; domain=".toList,
    domain.toList ++ "\r\n\r\n".toList], by simp⟩, none⟩

def chunkedAnswer : Hop :=
  ⟨none, 0, none, ⟨["HTTP/1.1 200 OK\r\nTransfer-Encoding: chunked\r\n\r\n".toList], by simp⟩, none⟩

def sampleUrl : Url := ⟨"http".toList, [], "a.com".toList, [], "/".toList, [], [], false⟩

theorem openUrl_ownCookies_of_subdomain :
    ∃ r, openUrl sampleLib .fresh sampleUrl [redirectTo "http://x.a.com/" ".a.com", chunkedAnswer] = some r ∧
      (∃ request ∈ r.sent, request.cookies ≠ []) ∧ r.OwnCookies := by
  obtain ⟨r, hrun, hsent⟩ := map_eq_some_iff.mp (by decide :
    (openUrl sampleLib .fresh sampleUrl [redirectTo "http://x.a.com/" ".a.com", chunkedAnswer]).map
      (fun r => decide (∃ request ∈ r.sent, request.cookies ≠ [])) = some true)
  exact ⟨r, hrun, of_decide_eq_true hsent, openUrl_ownCookies sampleLib .fresh sampleUrl _ hrun (by decide)⟩

/-- A host that sets a cookie for itself sends the client to another host, which receives the cookie. -/
theorem cookie_follows_redirect :
    ∃ r, openUrl sampleLib .fresh sampleUrl [redirectTo "http://b.com/" "a.com", chunkedAnswer] = some r ∧
      ¬ r.OwnCookies := by
  obtain ⟨r, hrun, hown⟩ := map_eq_some_iff.mp (by decide :
    (openUrl sampleLib .fresh sampleUrl [redirectTo "http://b.com/" "a.com", chunkedAnswer]).map
      (fun r => decide r.OwnCookies) = some false)
  exact ⟨r, hrun, of_decide_eq_false hown⟩

end Avbot.Http
