import Avbot.Http.AsyncOpen

/-!
# The two ways to open a URL

`open` and `async_open` on two new streams, with servers that answer every request in full. They agree as long as every redirect that is followed has a location that is a URL and sets no cookie.
-/

namespace Avbot.Http

open List SegmentedInput Scanner
open HttpClient (asyncBuildRequest fresh)
open OpenRun (asyncStep start stepWith)
open HttpOptions (statusCode)
open Httpd (Options)

/-- What lies between a client and the servers: when the requests are made, how the answers come in pieces and how the connections end. -/
structure Network where
  now : Nat → Int
  pieces : Nat → Answer → Pending Char
  content_pieces : ∀ k a, (pieces k a).content = a.text
  ending : Nat → Option OpenErrc

abbrev Servers := Str → Str → Answer

def Network.hop (net : Network) (servers : Servers) (build : Int → HttpClient → Option (Request × HttpClient)) (r : OpenRun) : Hop :=
  let k := r.sent.length
  match r.phase with
  | .connecting s =>
    match build (net.now k) s with
    | some (request, _) => ⟨none, net.now k, none, net.pieces k (servers request.host request.text), net.ending k⟩
    | none => ⟨none, net.now k, none, .nil, none⟩
  | _ => ⟨none, net.now k, none, .nil, none⟩

def drive (step : OpenRun → Hop → Option OpenRun) (hop : OpenRun → Hop) : Nat → OpenRun → OpenRun
  | 0, r => r
  | n + 1, r =>
    match step r (hop r) with
    | none => r
    | some r' => drive step hop n r'

/-- A call of `open`. There are no more requests than redirects and one. -/
def openOn (lib : HttpLib) (servers : Servers) (net : Network) (s : HttpClient) (u : Url) : OpenRun :=
  drive (OpenRun.step lib) (net.hop servers (HttpClient.buildRequest lib.toCookieLib)) (s.mMaxRedirects + 1) (.start lib s u)

def asyncOpenOn (lib : HttpLib) (servers : Servers) (net : Network) (s : HttpClient) (u : Url) : OpenRun :=
  drive (asyncStep lib) (net.hop servers (asyncBuildRequest lib.toCookieLib)) (s.mMaxRedirects + 1)
    (.start lib s u)

def OpenRun.texts (r : OpenRun) : List (Str × Str) := r.sent.map fun request => (request.host, request.text)

structure Alike (s t : HttpClient) : Prop where
  status : s.mStatusCode = t.mStatusCode
  location : s.mLocation = t.mLocation
  headers : s.mResponseOpts = t.mResponseOpts

theorem Alike.symm {s t : HttpClient} (h : Alike s t) : Alike t s := ⟨h.status.symm, h.location.symm, h.headers.symm⟩

theorem Alike.trans {s t u : HttpClient} (h : Alike s t) (h' : Alike t u) : Alike s u :=
  ⟨h.status.trans h'.status, h.location.trans h'.location, h.headers.trans h'.headers⟩

def SameOutcome (r r' : OpenRun) : Prop :=
  r.texts = r'.texts ∧
    ∃ ec s t, r.phase = .returned ec s ∧ r'.phase = .returned ec t ∧ Alike s t ∧ s.mCookies = t.mCookies

/-! ### The answer to a request -/

def setCookies (lib : CookieLib) (o : Str × Str) : List Cookie :=
  if Str.toLower o.1 = "set-cookie".toList then (lib.parseCookieString [] o.2).getD [] else []

def Answer.cookies (lib : CookieLib) (a : Answer) : List Cookie := a.headers.flatMap (setCookies lib)

namespace HttpClient

theorem updateCookies_eq (lib : CookieLib) (jar : List Cookie) (opts : Options) :
    updateCookies lib ⟨jar, []⟩ opts = ⟨jar ++ opts.flatMap (setCookies lib), []⟩ := by
  induction opts generalizing jar with
  | nil =>
    rw [flatMap_nil, append_nil]
    rfl
  | cons o opts ih =>
    have hone : (if Str.toLower o.1 = "set-cookie".toList then lib.update ⟨jar, []⟩ o.2 else ⟨jar, []⟩) =
        (⟨jar ++ setCookies lib o, []⟩ : Cookies) := by
      rw [setCookies]
      split
      · rfl
      · rw [append_nil]
    rw [updateCookies, foldl_cons, hone, flatMap_cons, ← append_assoc]
    exact ih _

variable {lib : HttpLib} {s : HttpClient} {a : Answer} {hop : Hop}

def answered (s : HttpClient) (a : Answer) : HttpClient :=
  match parseHttpHeaders ⟨s.mContentType, s.mContentLength, s.mLocation⟩ (s.afterStatus a).mResponseOpts a.headerText with
  | some (h, _) => (s.afterStatus a).located h
  | none => s.afterStatus a

theorem answered_eq (s : HttpClient) (a : Answer) :
    ∃ h, parseHttpHeaders ⟨s.mContentType, s.mContentLength, s.mLocation⟩ (s.afterStatus a).mResponseOpts a.headerText =
        some (h, []) ∧
      h.headers = (statusCode, Str.decimalInt a.status) :: a.headers ∧
      s.answered a = (s.afterStatus a).located h := by
  obtain ⟨h, hparse, hheaders⟩ := a.parseHttpHeaders_eq ⟨s.mContentType, s.mContentLength, s.mLocation⟩
    (s.afterStatus a).mResponseOpts
  exact ⟨h, hparse, hheaders, by rw [answered, hparse]⟩

theorem answered_cookies (s : HttpClient) (a : Answer) (jar : Cookies) :
    ({ s with mCookies := jar } : HttpClient).answered a = { s.answered a with mCookies := jar } := by
  rw [answered, answered]
  dsimp only [afterStatus]
  split <;> rfl

theorem updateCookies_answered (jar : List Cookie) :
    updateCookies lib.toCookieLib ⟨jar, []⟩ (s.answered a).mResponseOpts = ⟨jar ++ a.cookies lib.toCookieLib, []⟩ := by
  obtain ⟨h, -, hheaders, heq⟩ := s.answered_eq a
  have hopts : (s.answered a).mResponseOpts = (statusCode, Str.decimalInt a.status) :: a.headers := by
    rw [heq]
    exact hheaders
  have hstatus : setCookies lib.toCookieLib (statusCode, Str.decimalInt a.status) = [] :=
    if_neg (show ¬ Str.toLower statusCode = "set-cookie".toList by decide)
  rw [hopts, updateCookies_eq, flatMap_cons, hstatus, nil_append]
  rfl

def SameCall (s t : HttpClient) : Prop :=
  ∃ jar chunked alive mResponse sock closed ending, t = { s with
    mCookies := jar, mIsChunked := chunked, mKeepAlive := alive, mResponse := mResponse, sock := sock, closed := closed,
    ending := ending }

theorem exchange_of_receiveHeader {lib : HttpLib} {ec : Option OpenErrc} {s' : HttpClient} (hfake : s.mFakeContinue = false)
    (hwrite : hop.write = none) (hreceive : (s.connectTo hop).receiveHeader lib.toCookieLib = some (ec, s')) :
    s.exchange lib hop = s'.finishOpen lib ec := by
  rw [exchange, if_neg (by simp [hwrite]), if_neg (by simp [connectTo, hfake]), hreceive]

theorem exchange_answer (lib : HttpLib) (hfake : s.mFakeContinue = false) (hwrite : hop.write = none)
    (hsock : hop.sock.content = a.text) :
    ∃ s', SameCall (s.answered a) s' ∧ s'.mCookies = updateCookies lib.toCookieLib s.mCookies (s.answered a).mResponseOpts ∧
      s.exchange lib hop = s'.finishOpen lib (statusErrc a.status) := by
  obtain ⟨more, sock, hreceive, -⟩ := receiveHeader_answer (s := s.connectTo hop) lib.toCookieLib hsock
  obtain ⟨h, hparse, -, heq⟩ := s.answered_eq a
  have hfinish : ∃ s', SameCall (s.answered a) s' ∧
      s'.mCookies = updateCookies lib.toCookieLib s.mCookies (s.answered a).mResponseOpts ∧
      finishHeader lib.toCookieLib (statusErrc a.status) a.headerText (((s.connectTo hop).afterStatus a).placed more sock) =
        (statusErrc a.status, s') := by
    rw [finishHeader]
    dsimp only [connectTo, afterStatus, placed] at hparse ⊢
    rw [hparse, heq]
    exact ⟨_, ⟨_, _, _, _, _, _, _, rfl⟩, rfl, rfl⟩
  obtain ⟨s', hsame, hcookies, hfinish⟩ := hfinish
  exact ⟨s', hsame, hcookies, exchange_of_receiveHeader hfake hwrite (by rw [hreceive, hfinish])⟩

theorem handleRequest_answer (lib : HttpLib) (hfake : s.mFakeContinue = false) (hwrite : hop.write = none)
    (hsock : hop.sock.content = a.text) :
    ∃ s', SameCall (s.answered a) s' ∧ s'.mCookies = s.mCookies ∧ s.handleRequest lib hop = s'.followHeader lib := by
  obtain ⟨more, sock, hreceive, -⟩ :=
    asyncReceiveHeader_answer (s := { s.connectTo hop with mResponse := [] }) lib (a := a) hsock
  obtain ⟨h, hparse, -, heq⟩ := s.answered_eq a
  refine ⟨((((s.connectTo hop).afterStatus a).placed more sock).located h), ?_, rfl, ?_⟩
  · rw [heq]
    exact ⟨_, _, _, _, _, _, _, rfl⟩
  · rw [handleRequest, if_neg (by simp [hwrite]), if_neg (by simp [connectTo, hfake]), hreceive]
    exact completeHeader_of_parse hparse

/-! ### The end of the answer -/

theorem statusErrc_moved (status : Nat) :
    (statusErrc status = some .movedPermanently ∨ statusErrc status = some .found) ↔ status = 301 ∨ status = 302 := by
  rw [statusErrc]
  split
  · simp only [reduceCtorEq, or_self, false_iff]
    omega
  · simp [OpenErrc.movedPermanently, OpenErrc.found]

theorem finishOpen_of_follows {status : Nat} (hcode : s.mStatusCode = status) (hfollows : s.Follows) :
    s.finishOpen lib (statusErrc status) = match Url.fromString s.mLocation with
      | none => .thrown
      | some u => s.redirecting.beginOpen lib u := by
  have hmoved : status = 301 ∨ status = 302 := by
    have := hfollows.1
    omega
  rw [finishOpen, if_pos ((statusErrc_moved status).mpr hmoved)]
  exact if_pos hfollows.2

theorem finishOpen_of_not_follows {status : Nat} (hcode : s.mStatusCode = status) (hends : ¬ s.Follows) :
    s.finishOpen lib (statusErrc status) = .returned (statusErrc status) { s.closeMoved with mRedirects := 0 } := by
  rw [finishOpen, closeMoved]
  by_cases hmoved : s.mStatusCode = 301 ∨ s.mStatusCode = 302
  · rw [if_pos ((statusErrc_moved status).mpr (by omega)), if_pos hmoved]
    exact if_neg fun hmore => hends ⟨hmoved, hmore⟩
  · rw [if_neg (fun h => hmoved (by have := (statusErrc_moved status).mp h; omega)), if_neg hmoved]

theorem beginOpen_cases (lib : HttpLib) (u : Url) :
    (∀ s : HttpClient, s.beginOpen lib u = .connecting (s.resetOpen u)) ∨
      ∀ s : HttpClient, s.beginOpen lib u = .returned (some .operationNotSupported) (s.resetOpen u) := by
  by_cases hprotocol : u.protocol ≠ "http".toList ∧ ¬ (lib.enableOpenssl ∧ u.protocol = "https".toList)
  · right
    intro s
    rw [beginOpen]
    exact if_pos hprotocol
  · left
    intro s
    rw [beginOpen]
    exact if_neg hprotocol

/-! ### Two streams -/

structure Plain (s : HttpClient) : Prop where
  proxy : s.mProxy.type = .none
  options : s.mRequestOptsPriv = []
  header : s.mFakeContinue = false

/-- Between two requests the streams differ in the cookies, of which `async_open` has none, and in a flag that the next request sets. -/
def Twin (s t : HttpClient) : Prop := ∃ alive, t = { s with mCookies := ⟨[], []⟩, mKeepAlive := alive }

theorem composeRequest_cookies (lib : CookieLib) (now now' : Int) (host : Str) (opts : Options) (s : HttpClient) (jar : Cookies) :
    composeRequest lib now' host opts { s with mCookies := jar } =
      ({ (composeRequest lib now host opts s).1 with cookies := lib.selected jar s.https now' [] [] },
        { (composeRequest lib now host opts s).2 with mCookies := jar }) := by
  unfold composeRequest composeRequestWith
  rfl

theorem selected_nil (lib : CookieLib) (domain : Str) (https : Bool) (now : Int) (domain' path : Str) :
    lib.selected ⟨[], domain⟩ https now domain' path = [] := by
  apply eq_nil_iff_forall_not_mem.mpr
  intro c hc
  exact absurd (lib.of_mem_selected hc).1 not_mem_nil

theorem buildRequest_plain (hplain : s.Plain) (lib : CookieLib) (now : Int) :
    s.buildRequest lib now = some (composeRequest lib now s.mUrl.host [] s.resetRequest) := by
  rw [buildRequest, hplain.options]
  rfl

theorem Twin.alike {s t : HttpClient} (h : Twin s t) : Alike s t := by
  obtain ⟨alive, rfl⟩ := h
  exact ⟨rfl, rfl, rfl⟩

theorem Twin.cookies {s t : HttpClient} (h : Twin s t) : t.mCookies = ⟨[], []⟩ := by
  obtain ⟨alive, rfl⟩ := h
  rfl

variable {t : HttpClient} {jar : List Cookie} {hop' : Hop}

theorem Twin.requests (htwin : Twin s t) (hplain : s.Plain) (hjar : s.mCookies = ⟨jar, []⟩) (lib : CookieLib) (now now' : Int) :
    ∃ q q' s₁, s.buildRequest lib now = some (q, s₁) ∧
      t.asyncBuildRequest lib now' = some (q', { s₁ with mCookies := ⟨[], []⟩ }) ∧ (jar = [] → q' = q) ∧
      s₁.Plain ∧ s₁.mCookies = ⟨jar, []⟩ ∧ s₁.mRedirects = s.mRedirects ∧ s₁.mMaxRedirects = s.mMaxRedirects := by
  obtain ⟨alive, rfl⟩ := htwin
  have hplain' : ({ s with mCookies := ⟨[], []⟩, mKeepAlive := alive } : HttpClient).Plain := ⟨hplain.proxy, hplain.options, hplain.header⟩
  refine ⟨(composeRequest lib now s.mUrl.host [] s.resetRequest).1,
    { (composeRequest lib now s.mUrl.host [] s.resetRequest).1 with
      cookies := lib.selected ⟨[], []⟩ s.resetRequest.https now' [] [] },
    (composeRequest lib now s.mUrl.host [] s.resetRequest).2, buildRequest_plain hplain lib now, ?_, ?_,
    ⟨hplain.proxy, hplain.options, hplain.header⟩, hjar, rfl, rfl⟩
  · rw [asyncBuildRequest_eq lib now' hplain'.proxy, buildRequest_plain hplain']
    exact congrArg some (composeRequest_cookies lib now now' s.mUrl.host [] s.resetRequest ⟨[], []⟩)
  · rintro rfl
    have hnone : lib.selected s.resetRequest.mCookies s.resetRequest.https now [] [] = [] := by
      rw [show s.resetRequest.mCookies = ⟨[], []⟩ from hjar, selected_nil]
    rw [selected_nil, ← hnone]
    rfl

theorem answered_status (s : HttpClient) (a : Answer) : (s.answered a).mStatusCode = a.status := by
  obtain ⟨h, -, -, heq⟩ := s.answered_eq a
  rw [heq]
  rfl

theorem redirects_of_follows (hfollows : (s.answered a).Follows) : s.mRedirects + 1 ≤ s.mMaxRedirects := by
  obtain ⟨h, -, -, heq⟩ := s.answered_eq a
  rw [heq] at hfollows
  exact hfollows.2

variable {s' : HttpClient}

theorem SameCall.follows (h : SameCall s s') (hfollows : s.Follows) : s'.Follows := by
  obtain ⟨_, _, _, _, _, _, _, rfl⟩ := h
  exact hfollows

theorem SameCall.not_follows (h : SameCall s s') (hfollows : ¬ s.Follows) : ¬ s'.Follows := by
  obtain ⟨_, _, _, _, _, _, _, rfl⟩ := h
  exact hfollows

theorem SameCall.status (h : SameCall s s') : s'.mStatusCode = s.mStatusCode := by
  obtain ⟨_, _, _, _, _, _, _, rfl⟩ := h
  rfl

theorem SameCall.location (h : SameCall s s') : s'.mLocation = s.mLocation := by
  obtain ⟨_, _, _, _, _, _, _, rfl⟩ := h
  rfl

theorem SameCall.of_cookies {jar : Cookies} (h : SameCall (({ s with mCookies := jar } : HttpClient).answered a) s') :
    SameCall (s.answered a) s' := by
  rw [answered_cookies] at h
  obtain ⟨_, _, _, _, _, _, _, rfl⟩ := h
  exact ⟨_, _, _, _, _, _, _, rfl⟩

theorem exchange_invalid (hplain : s.Plain) (hwrite : hop.write = none) (hsock : hop.sock.content = a.text)
    (hfollows : (s.answered a).Follows) (hlocation : Url.fromString (s.answered a).mLocation = none) :
    s.exchange lib hop = .thrown := by
  obtain ⟨s', hsame, -, hsync⟩ := exchange_answer lib hplain.header hwrite hsock
  rw [hsync, finishOpen_of_follows (hsame.status.trans (answered_status s a)) (hsame.follows hfollows), hsame.location, hlocation]

theorem exchange_follows (hplain : s.Plain) (hjar : s.mCookies = ⟨jar, []⟩) (hwrite : hop.write = none) (hwrite' : hop'.write = none)
    (hsock : hop.sock.content = a.text) (hsock' : hop'.sock.content = a.text) (hfollows : (s.answered a).Follows) {u : Url}
    (hlocation : Url.fromString (s.answered a).mLocation = some u) :
    ∃ s' t', Twin s' t' ∧ s'.Plain ∧ s'.mCookies = ⟨jar ++ a.cookies lib.toCookieLib, []⟩ ∧
      s'.mRedirects = s.mRedirects + 1 ∧ s'.mMaxRedirects = s.mMaxRedirects ∧
      (s.exchange lib hop = .connecting s' ∧
          ({ s with mCookies := ⟨[], []⟩ } : HttpClient).handleRequest lib hop' = .connecting t' ∨
        s.exchange lib hop = .returned (some .operationNotSupported) s' ∧
          ({ s with mCookies := ⟨[], []⟩ } : HttpClient).handleRequest lib hop' = .returned (some .operationNotSupported) t') := by
  obtain ⟨s', hsame, hcookies, hsync⟩ := exchange_answer lib hplain.header hwrite hsock
  obtain ⟨t', hsame', hcookies', hasync⟩ :=
    handleRequest_answer (s := { s with mCookies := ⟨[], []⟩ }) (a := a) lib hplain.header hwrite' hsock'
  have hstatus : s'.mStatusCode = a.status := hsame.status.trans (answered_status s a)
  have hcall : SameCall (s.answered a) t' := hsame'.of_cookies
  rw [finishOpen_of_follows hstatus (hsame.follows hfollows), hsame.location, hlocation] at hsync
  rw [followHeader_of_follows (hcall.follows hfollows), hcall.location, hlocation] at hasync
  obtain ⟨h, -, -, heq⟩ := s.answered_eq a
  rw [hjar, updateCookies_answered] at hcookies
  refine ⟨s'.redirecting.resetOpen u, t'.redirecting.resetOpen u, ?_, ?_, hcookies, ?_, ?_, ?_⟩
  · obtain ⟨_, _, _, _, _, _, _, rfl⟩ := hsame
    obtain ⟨jar', _, alive, _, _, _, _, rfl⟩ := hcall
    obtain rfl : jar' = ⟨[], []⟩ := hcookies'
    exact ⟨alive, rfl⟩
  · obtain ⟨_, _, _, _, _, _, _, rfl⟩ := hsame
    rw [heq]
    exact ⟨hplain.proxy, hplain.options, hplain.header⟩
  · obtain ⟨_, _, _, _, _, _, _, rfl⟩ := hsame
    rw [heq]
    rfl
  · obtain ⟨_, _, _, _, _, _, _, rfl⟩ := hsame
    rw [heq]
    rfl
  · rcases beginOpen_cases lib u with hopens | hrefuses
    · exact .inl ⟨hsync.trans (hopens _), hasync.trans (hopens _)⟩
    · exact .inr ⟨hsync.trans (hrefuses _), hasync.trans (hrefuses _)⟩

theorem closeMoved_spec (s : HttpClient) : Alike s s.closeMoved ∧ s.closeMoved.mCookies = s.mCookies := by
  rw [closeMoved]
  split <;> exact ⟨⟨rfl, rfl, rfl⟩, rfl⟩

theorem SameCall.alike (h : SameCall s s') : Alike s s' := by
  obtain ⟨_, _, _, _, _, _, _, rfl⟩ := h
  exact ⟨rfl, rfl, rfl⟩

theorem endHeader_spec (lib : CookieLib) {status : Nat} (hcode : s.mStatusCode = status) :
    ∃ t, s.endHeader lib = .returned (statusErrc status) t ∧ Alike s t ∧
      t.mCookies = updateCookies lib s.mCookies s.mResponseOpts := by
  refine ⟨_, congrArg (Opening.returned · _) ?_, ⟨rfl, rfl, rfl⟩, rfl⟩
  rw [hcode, Int.toNat_natCast]

theorem exchange_ends (hplain : s.Plain) (hjar : s.mCookies = ⟨jar, []⟩) (hwrite : hop.write = none) (hwrite' : hop'.write = none)
    (hsock : hop.sock.content = a.text) (hsock' : hop'.sock.content = a.text) (hends : ¬ (s.answered a).Follows) :
    ∃ ec s' t', s.exchange lib hop = .returned ec s' ∧
      ({ s with mCookies := ⟨[], []⟩ } : HttpClient).handleRequest lib hop' = .returned ec t' ∧ Alike s' t' ∧
      s'.mCookies = ⟨jar ++ a.cookies lib.toCookieLib, []⟩ ∧ t'.mCookies = ⟨a.cookies lib.toCookieLib, []⟩ := by
  obtain ⟨s', hsame, hcookies, hsync⟩ := exchange_answer lib hplain.header hwrite hsock
  obtain ⟨t', hsame', hcookies', hasync⟩ :=
    handleRequest_answer (s := { s with mCookies := ⟨[], []⟩ }) (a := a) lib hplain.header hwrite' hsock'
  have hstatus : s'.mStatusCode = a.status := hsame.status.trans (answered_status s a)
  have hcall : SameCall (s.answered a) t' := hsame'.of_cookies
  obtain ⟨hs, hscookies⟩ := s'.closeMoved_spec
  obtain ⟨ht, htcookies⟩ := t'.closeMoved_spec
  have hcode : t'.closeMoved.mStatusCode = a.status :=
    ht.status.symm.trans (hcall.status.trans (answered_status s a))
  have hopts : t'.closeMoved.mResponseOpts = (s.answered a).mResponseOpts := (hcall.alike.trans ht).headers.symm
  obtain ⟨t'', hended, hlike, hlast⟩ := endHeader_spec lib.toCookieLib hcode
  rw [finishOpen_of_not_follows hstatus (hsame.not_follows hends)] at hsync
  rw [followHeader_of_not_follows (hcall.not_follows hends), hended] at hasync
  rw [hjar, updateCookies_answered] at hcookies
  rw [htcookies, hopts, hcookies', updateCookies_answered] at hlast
  have halike := ((hs.symm.trans hsame.alike.symm).trans (hcall.alike.trans ht)).trans hlike
  exact ⟨_, _, t'', hsync, hasync, ⟨halike.status, halike.location, halike.headers⟩, hscookies.trans hcookies, hlast⟩

end HttpClient

/-! ### Whole calls -/

def OpenRun.RedirectsCleanly (lib : HttpLib) (servers : Servers) (net : Network) (r : OpenRun) : Prop :=
  ∀ s request s', r.phase = .connecting s → s.buildRequest lib.toCookieLib (net.now r.sent.length) = some (request, s') →
    (s'.answered (servers request.host request.text)).Follows →
      (Url.fromString (s'.answered (servers request.host request.text)).mLocation).isSome ∧
        (servers request.host request.text).cookies lib.toCookieLib = []

def Along (step : OpenRun → Hop → Option OpenRun) (hop : OpenRun → Hop) (p : OpenRun → Prop) : Nat → OpenRun → Prop
  | 0, _ => True
  | n + 1, r => p r ∧ (step r (hop r)).elim True (Along step hop p n)

variable {step : OpenRun → Hop → Option OpenRun} {hop : OpenRun → Hop} {r : OpenRun}

theorem drive_of_step {r' : OpenRun} (hstep : step r (hop r) = some r') (n : Nat) :
    drive step hop (n + 1) r = drive step hop n r' := by
  rw [drive, hstep]

theorem drive_of_none (hstep : ∀ hop, step r hop = none) (n : Nat) : drive step hop n r = r := by
  cases n with
  | zero => rfl
  | succ n => rw [drive, hstep]

theorem texts_prefix_drive (hsent : ∀ r hop r', step r hop = some r' → r.texts <+: r'.texts)
    (hop : OpenRun → Hop) (n : Nat) (r : OpenRun) : r.texts <+: (drive step hop n r).texts := by
  induction n generalizing r with
  | zero => exact prefix_rfl
  | succ n ih =>
    rw [drive]
    split
    case h_1 => exact prefix_rfl
    case h_2 r' hstep => exact (hsent _ _ _ hstep).trans (ih r')

theorem texts_drive_ne {step' : OpenRun → Hop → Option OpenRun} {hop' : OpenRun → Hop} {r' : OpenRun} {sent : List (Str × Str)}
    {x y : Str × Str} (hsent : ∀ r hop r', step r hop = some r' → r.texts <+: r'.texts)
    (hsent' : ∀ r hop r', step' r hop = some r' → r.texts <+: r'.texts) (hr : r.texts = sent ++ [x])
    (hr' : r'.texts = sent ++ [y]) (hxy : x ≠ y) (n : Nat) : (drive step hop n r).texts ≠ (drive step' hop' n r').texts := by
  intro hsame
  have hx := texts_prefix_drive hsent hop n r
  have hy := texts_prefix_drive hsent' hop' n r'
  rw [← hsame, hr'] at hy
  rw [hr] at hx
  have heq := (prefix_of_prefix_length_le hx hy (by simp)).eq_of_length (by simp)
  exact hxy (List.cons.inj (append_cancel_left heq)).1

variable {build : CookieLib → Int → HttpClient → Option (Request × HttpClient)} {talk : HttpLib → Hop → HttpClient → Opening}

theorem texts_prefix_step {lib : HttpLib} (r : OpenRun) (hop : Hop) (r' : OpenRun)
    (hstep : stepWith build talk lib r hop = some r') : r.texts <+: r'.texts := by
  rcases OpenRun.stepWith_cases hstep with ⟨ending, -, rfl⟩ | ⟨s, request, s', -, -, -, rfl⟩
  · exact prefix_rfl
  · rw [OpenRun.texts, OpenRun.texts, map_append]
    exact prefix_append _ _

variable {lib : HttpLib} {servers : Servers} {net net' : Network} {s t s₁ : HttpClient} {S T : List Request} {q : Request}

theorem step_hop (talk : HttpLib → Hop → HttpClient → Opening) (servers : Servers)
    (hbuild : build lib.toCookieLib (net.now S.length) s = some (q, s₁)) :
    ∃ hop : Hop, hop.write = none ∧ hop.sock.content = (servers q.host q.text).text ∧
      stepWith build talk lib ⟨S, .connecting s⟩ (net.hop servers (build lib.toCookieLib) ⟨S, .connecting s⟩) =
        some ⟨S ++ [q], talk lib hop s₁⟩ := by
  refine ⟨⟨none, net.now S.length, none, net.pieces S.length (servers q.host q.text), net.ending S.length⟩, rfl,
    net.content_pieces S.length _, ?_⟩
  rw [Network.hop]
  dsimp only
  rw [hbuild, stepWith]
  dsimp only
  rw [hbuild]

variable {ec : Option OpenErrc}

theorem sameOutcome_returned (htexts : OpenRun.texts ⟨S, .returned ec s⟩ = OpenRun.texts ⟨T, .returned ec t⟩)
    (halike : Alike s t) : SameOutcome ⟨S, .returned ec s⟩ ⟨T, .returned ec t⟩ ↔ s.mCookies = t.mCookies := by
  constructor
  · rintro ⟨-, ec', s', t', hs, ht, -, hcookies⟩
    obtain ⟨-, rfl⟩ := Opening.returned.inj hs
    obtain ⟨-, rfl⟩ := Opening.returned.inj ht
    exact hcookies
  · intro hcookies
    exact ⟨htexts, ec, s, t, rfl, rfl, halike, hcookies⟩

theorem along_returned {hop : OpenRun → Hop} (n : Nat) :
    Along (OpenRun.step lib) hop (OpenRun.RedirectsCleanly lib servers net) n ⟨S, .returned ec s⟩ := by
  cases n with
  | zero => trivial
  | succ n =>
    refine ⟨?_, trivial⟩
    intro s' request s'' hphase
    cases hphase

theorem redirectsCleanly_iff (hbuild : s.buildRequest lib.toCookieLib (net.now S.length) = some (q, s₁)) :
    OpenRun.RedirectsCleanly lib servers net ⟨S, .connecting s⟩ ↔
      ((s₁.answered (servers q.host q.text)).Follows →
        (Url.fromString (s₁.answered (servers q.host q.text)).mLocation).isSome ∧
          (servers q.host q.text).cookies lib.toCookieLib = []) := by
  constructor
  · intro hclean
    exact hclean s q s₁ rfl hbuild
  · intro hclean s' request s'' hphase hbuild'
    obtain rfl := Opening.connecting.inj hphase
    obtain ⟨rfl, rfl⟩ := Prod.mk.inj (Option.some.inj (hbuild.symm.trans hbuild'))
    exact hclean

theorem texts_append (S : List Request) (q : Request) (phase phase' : Opening) :
    OpenRun.texts ⟨S ++ [q], phase⟩ = OpenRun.texts ⟨S, phase'⟩ ++ [(q.host, q.text)] := by
  rw [OpenRun.texts, OpenRun.texts, map_append]
  rfl

theorem sameOutcome_iff_of_twin (lib : HttpLib) (servers : Servers) (net net' : Network) {n : Nat} {jar : List Cookie} (hplain : s.Plain) (htwin : HttpClient.Twin s t)
    (hjar : s.mCookies = ⟨jar, []⟩) (hredirects : s.mRedirects ≤ s.mMaxRedirects) (hfuel : s.mMaxRedirects + 1 ≤ s.mRedirects + n)
    (htexts : OpenRun.texts ⟨S, .connecting s⟩ = OpenRun.texts ⟨T, .connecting t⟩) :
    SameOutcome
        (drive (OpenRun.step lib) (net.hop servers (HttpClient.buildRequest lib.toCookieLib)) n ⟨S, .connecting s⟩)
        (drive (asyncStep lib) (net'.hop servers (asyncBuildRequest lib.toCookieLib)) n ⟨T, .connecting t⟩) ↔
      jar = [] ∧ Along (OpenRun.step lib) (net.hop servers (HttpClient.buildRequest lib.toCookieLib))
        (OpenRun.RedirectsCleanly lib servers net) n ⟨S, .connecting s⟩ := by
  induction n generalizing s t S T jar with
  | zero => omega
  | succ n ih =>
    obtain ⟨q, q', s₁, hbuild, hbuild', hsame, hplain₁, hjar₁, hcount, hmax⟩ :=
      htwin.requests hplain hjar lib.toCookieLib (net.now S.length) (net'.now T.length)
    obtain ⟨hop, hwrite, hsock, hstep⟩ := step_hop HttpClient.exchange servers hbuild
    obtain ⟨hop', hwrite', hsock', hstep'⟩ := step_hop HttpClient.handleRequest servers hbuild'
    change OpenRun.step lib _ _ = _ at hstep
    change asyncStep lib _ _ = _ at hstep'
    rw [drive_of_step hstep, drive_of_step hstep', Along, hstep, Option.elim_some]
    have htexts' : ∀ phase phase', (q.host, q.text) = (q'.host, q'.text) →
        OpenRun.texts ⟨S ++ [q], phase⟩ = OpenRun.texts ⟨T ++ [q'], phase'⟩ := by
      intro phase phase' hq
      rw [texts_append S q phase (.connecting s), texts_append T q' phase' (.connecting t), htexts, hq]
    by_cases hq : (q.host, q.text) = (q'.host, q'.text)
    swap
    · -- different requests are seen in the end, and only cookies make them different
      refine iff_of_false ?_ fun ⟨hnone, _⟩ => hq (by rw [hsame hnone])
      rintro ⟨hout, -⟩
      refine texts_drive_ne texts_prefix_step texts_prefix_step
        (texts_append S q _ (.connecting s)) ?_ hq n hout
      rw [texts_append T q' _ (.connecting t), htexts]
    obtain ⟨hhost, htext⟩ := Prod.mk.inj hq
    rw [← hhost, ← htext] at hsock'
    rw [redirectsCleanly_iff hbuild]
    by_cases hfollows : (s₁.answered (servers q.host q.text)).Follows
    swap
    · obtain ⟨ec, s', t', hsync, hasync, halike, hcookies, hcookies'⟩ :=
        HttpClient.exchange_ends hplain₁ hjar₁ hwrite hwrite' hsock hsock' hfollows
      rw [hsync, hasync, drive_of_none fun _ => rfl, drive_of_none fun _ => rfl, sameOutcome_returned (htexts' _ _ hq) halike,
        hcookies, hcookies']
      simp [along_returned, hfollows]
    cases hlocation : Url.fromString (s₁.answered (servers q.host q.text)).mLocation with
    | none =>
      rw [HttpClient.exchange_invalid hplain₁ hwrite hsock hfollows hlocation, drive_of_none fun _ => rfl]
      refine iff_of_false ?_ fun ⟨_, hclean, _⟩ => absurd (hclean hfollows).1 (by simp)
      rintro ⟨-, ec, s', t', hphase, -⟩
      cases hphase
    | some u =>
      obtain ⟨s', t', htwin', hplain', hjar', hcount', hmax', hphases⟩ :=
        HttpClient.exchange_follows hplain₁ hjar₁ hwrite hwrite' hsock hsock' hfollows hlocation
      rcases hphases with ⟨hsync, hasync⟩ | ⟨hsync, hasync⟩
      · have hmore : s₁.mRedirects + 1 ≤ s₁.mMaxRedirects := HttpClient.redirects_of_follows hfollows
        rw [hsync, hasync, ih hplain' htwin' hjar' (by omega) (by omega) (htexts' _ _ hq)]
        rw [append_eq_nil_iff]
        constructor
        · rintro ⟨⟨hnone, hcookies⟩, hlater⟩
          exact ⟨hnone, fun _ => ⟨rfl, hcookies⟩, hlater⟩
        · rintro ⟨hnone, hclean, hlater⟩
          exact ⟨⟨hnone, (hclean hfollows).2⟩, hlater⟩
      · rw [hsync, hasync, drive_of_none fun _ => rfl, drive_of_none fun _ => rfl,
          sameOutcome_returned (htexts' _ _ hq) htwin'.alike, hjar', htwin'.cookies]
        simp [along_returned, hfollows]

/-- On two new streams the calls agree exactly if every redirect that is followed is clean, whatever the network does. -/
theorem sameOutcome_iff (lib : HttpLib) (servers : Servers) (net net' : Network) (u : Url) :
    SameOutcome (openOn lib servers net .fresh u) (asyncOpenOn lib servers net' .fresh u) ↔
      Along (OpenRun.step lib) (net.hop servers (HttpClient.buildRequest lib.toCookieLib))
        (OpenRun.RedirectsCleanly lib servers net) (fresh.mMaxRedirects + 1) (.start lib .fresh u) := by
  rw [openOn, asyncOpenOn, start]
  rcases HttpClient.beginOpen_cases lib u with hopens | hrefuses
  · have htwin : HttpClient.Twin (fresh.resetOpen u) (fresh.resetOpen u) := ⟨true, rfl⟩
    have hboth := sameOutcome_iff_of_twin lib servers net net' (S := []) (T := [])
      (n := fresh.mMaxRedirects + 1) ⟨rfl, rfl, rfl⟩ htwin rfl (Nat.zero_le 5) (Nat.le_refl 6) rfl
    rw [hopens, hboth]
    exact and_iff_right rfl
  · rw [hrefuses, drive_of_none fun _ => rfl, drive_of_none fun _ => rfl, sameOutcome_returned rfl ⟨rfl, rfl, rfl⟩]
    exact iff_of_true rfl (along_returned _)

def quickNetwork : Network where
  now _ := 0
  pieces _ a := a.piece
  content_pieces _ a := a.content_piece
  ending _ := none

def cookieAnswer : Answer where
  statusLine := "HTTP/1.1 302 Found".toList
  headerLines := ["Location: http://b.com/".toList, "Set-Cookie: sid=1".toList]
  body := []
  line := ⟨1, 1, 302, "Found".toList⟩
  headers := [("Location".toList, "http://b.com/".toList), ("Set-Cookie".toList, "sid=1".toList)]
  statusLine_chars := by decide
  headerLine_chars := by decide
  status_accepted := by decide +kernel
  headers_accepted := by decide +kernel
  final := by decide

def lostAnswer : Answer :=
  { cookieAnswer with headerLines := [], headers := [], headerLine_chars := by decide, headers_accepted := by decide +kernel }

def redirectingServers (a : Answer) : Servers := fun host _ => if host = "a.com".toList then a else sampleAnswer

/-- The cookie of a redirect is in the jar of `open` only; a redirect without a location makes `open` throw. -/
theorem cookie_or_location_lost :
    ¬ SameOutcome (openOn sampleLib (redirectingServers cookieAnswer) quickNetwork .fresh sampleUrl)
        (asyncOpenOn sampleLib (redirectingServers cookieAnswer) quickNetwork .fresh sampleUrl) ∧
      ¬ SameOutcome (openOn sampleLib (redirectingServers lostAnswer) quickNetwork .fresh sampleUrl)
        (asyncOpenOn sampleLib (redirectingServers lostAnswer) quickNetwork .fresh sampleUrl) := by
  constructor
  · rintro ⟨-, ec, s, t, hsync, hasync, -, hcookies⟩
    have hjar : (openOn sampleLib (redirectingServers cookieAnswer) quickNetwork .fresh sampleUrl).phase.result.map
        (fun r => r.2.mCookies.cookies.length) = some 1 := by decide
    have hjar' : (asyncOpenOn sampleLib (redirectingServers cookieAnswer) quickNetwork .fresh sampleUrl).phase.result.map
        (fun r => r.2.mCookies.cookies.length) = some 0 := by decide
    rw [hsync] at hjar
    rw [hasync] at hjar'
    have hone : s.mCookies.cookies.length = 1 := Option.some.inj hjar
    have hnone : t.mCookies.cookies.length = 0 := Option.some.inj hjar'
    rw [hcookies, hnone] at hone
    cases hone
  · rintro ⟨-, ec, s, t, hsync, -⟩
    have hthrown : (openOn sampleLib (redirectingServers lostAnswer) quickNetwork .fresh sampleUrl).phase.result.isNone = true := by
      decide
    rw [hsync] at hthrown
    cases hthrown

end Avbot.Http
