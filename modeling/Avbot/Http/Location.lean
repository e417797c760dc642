import Avbot.Http.AsyncOpen
import Avbot.Http.ContentLength

/-!
# The location of an answer

`receive_header` and `handle_header` complete a location that has no `://`: they put protocol, host and port in front of it, with a slash between. A path has a slash of its own, and a path with `://` in its query is left as it is.
-/

namespace Avbot.Http

open List Scanner

def lastLocation (opts : List (Str × Str)) : Option Str :=
  (opts.filter fun o => headersEqual o.1 "Location".toList).getLast?.map Prod.snd

theorem foldl_checkHeader_location (opts : List (Str × Str)) (known : KnownHeaders) :
    (opts.foldl (fun known o => checkHeader known o.1 o.2) known).location = (lastLocation opts).getD known.location :=
  foldl_checkHeader_last checkHeader_location opts known

def Answer.location (a : Answer) : Option Str := lastLocation a.headers

theorem Answer.parseHttpHeaders_location {a : Answer} {p : Str} (hlocation : a.location = some p) (known : KnownHeaders)
    (opts : Httpd.Options) :
    ∃ h, parseHttpHeaders known opts a.headerText = some (h, []) ∧ h.known.location = p := by
  obtain ⟨h, hparse, hheaders⟩ := a.parseHttpHeaders_eq known opts
  obtain ⟨more, hmore, hknown⟩ := scan_headers_known hparse
  obtain rfl : more = a.headers := append_cancel_left (hmore.symm.trans hheaders)
  refine ⟨h, hparse, ?_⟩
  rw [hknown, foldl_checkHeader_location]
  rw [Answer.location] at hlocation
  rw [hlocation]
  rfl

/-- `protocol://host:port` of a URL, the port only if there is one. -/
def Url.authority (u : Url) : Str :=
  u.protocol ++ "://".toList ++ (if u.ipv6Host then ['['] ++ u.host ++ [']'] else u.host) ++
    (if u.port ≠ [] then ':' :: u.port else [])

theorem Url.authority_eq (u : Url) :
    u.authority = (if u.protocol = [] then "://".toList else []) ++
      u.toString { protocol := true, host := true, port := true } := by
  unfold authority Url.toString
  by_cases hprotocol : u.protocol = []
  · simp [hprotocol]
  · simp [hprotocol]

namespace HttpClient

theorem fixLocation_ne (s : HttpClient) (p : Str) : s.fixLocation ('/' :: p) ≠ s.mUrl.authority ++ '/' :: p := by
  intro heq
  have hlength := congrArg List.length heq
  rw [fixLocation] at hlength
  split at hlength
  · have hscheme : 3 ≤ s.mUrl.authority.length := by
      simp only [Url.authority, length_append]
      have hcolon : "://".toList.length = 3 := rfl
      omega
    rw [length_append] at hlength
    omega
  · rw [Url.authority_eq] at hlength
    simp only [length_append, length_cons, length_nil] at hlength
    split at hlength
    · have hcolon : "://".toList.length = 3 := rfl
      omega
    · rw [length_nil] at hlength
      omega

theorem mLocation_finishHeader (lib : CookieLib) (ec : Option OpenErrc) {s : HttpClient} {text rest : Str} {h : Headers}
    (hparse : parseHttpHeaders ⟨s.mContentType, s.mContentLength, s.mLocation⟩ s.mResponseOpts text = some (h, rest)) :
    (finishHeader lib ec text s).2.mLocation = s.fixLocation h.known.location := by
  rw [finishHeader]
  rw [hparse]
  rfl

/-- Neither function stores the URL that the path stands for: they store the path after two slashes, or the path alone. -/
theorem location_not_resolved (lib : HttpLib) (s : HttpClient) (a : Answer) (p : Str)
    (hlocation : a.location = some ('/' :: p)) (hsock : s.sock.content = a.text) :
    (∃ ec s', s.receiveHeader lib.toCookieLib = some (ec, s') ∧ s'.mLocation = s.fixLocation ('/' :: p) ∧
        s'.mLocation ≠ s.mUrl.authority ++ '/' :: p) ∧
      ∃ s' : HttpClient, { s with mResponse := [] }.asyncReceiveHeader lib = s'.followHeader lib ∧
        s'.mLocation = s.fixLocation ('/' :: p) ∧ s'.mLocation ≠ s.mUrl.authority ++ '/' :: p := by
  constructor
  · obtain ⟨more, sock, hreceive, -⟩ := receiveHeader_answer lib.toCookieLib hsock
    obtain ⟨h, hparse, hknown⟩ := a.parseHttpHeaders_location hlocation ⟨s.mContentType, s.mContentLength, s.mLocation⟩
      (s.afterStatus a).mResponseOpts
    have hstored : (finishHeader lib.toCookieLib (statusErrc a.status) a.headerText
        ((s.afterStatus a).placed more sock)).2.mLocation = s.fixLocation ('/' :: p) := by
      rw [mLocation_finishHeader lib.toCookieLib _ hparse, hknown]
      rfl
    exact ⟨_, _, hreceive, hstored, hstored ▸ s.fixLocation_ne p⟩
  · obtain ⟨more, sock, hreceive, -⟩ := @asyncReceiveHeader_answer { s with mResponse := [] } lib a hsock
    obtain ⟨h, hparse, hknown⟩ := a.parseHttpHeaders_location hlocation ⟨s.mContentType, s.mContentLength, s.mLocation⟩
      (s.afterStatus a).mResponseOpts
    rw [completeHeader_of_parse hparse] at hreceive
    refine ⟨_, hreceive, ?_⟩
    show s.fixLocation h.known.location = _ ∧ s.fixLocation h.known.location ≠ _
    rw [hknown]
    exact ⟨rfl, s.fixLocation_ne p⟩

def pathAnswer : Answer where
  statusLine := "HTTP/1.1 301 Moved".toList
  headerLines := ["Location: /p".toList]
  body := []
  line := ⟨1, 1, 301, "Moved".toList⟩
  headers := [("Location".toList, "/p".toList)]
  statusLine_chars := by decide
  headerLine_chars := by decide
  status_accepted := by decide
  headers_accepted := by decide
  final := by decide

theorem location_not_resolved_path :
    (∃ ec s', receiveHeader sampleLib.toCookieLib { fresh with mUrl := sampleUrl, sock := pathAnswer.piece } = some (ec, s') ∧
        s'.mLocation = fixLocation { fresh with mUrl := sampleUrl } "/p".toList ∧
        s'.mLocation ≠ sampleUrl.authority ++ "/p".toList) ∧
      ∃ s' : HttpClient, asyncReceiveHeader sampleLib { fresh with mUrl := sampleUrl, sock := pathAnswer.piece } =
          s'.followHeader sampleLib ∧
        s'.mLocation = fixLocation { fresh with mUrl := sampleUrl } "/p".toList ∧
        s'.mLocation ≠ sampleUrl.authority ++ "/p".toList :=
  location_not_resolved sampleLib { fresh with mUrl := sampleUrl, sock := pathAnswer.piece } pathAnswer "p".toList
    (by decide) pathAnswer.content_piece

/-- A path gets two slashes, and a path with a URL in its query is left alone. -/
theorem path_locations_stored :
    let s : HttpClient := { fresh with mUrl := sampleUrl }
    let answer (location : String) : SegmentedInput.Pending Char :=
      ⟨["HTTP/1.1 302 Found\r\nLocation: ".toList, location.toList ++ "\r\n\r\n".toList], by simp⟩
    sampleUrl.authority = "http://a.com".toList ∧
      (receiveHeader sampleLib.toCookieLib { s with sock := answer "/p" }).map (fun r => r.2.mLocation) =
        some "http://a.com//p".toList ∧
      (receiveHeader sampleLib.toCookieLib { s with sock := answer "/p?u=b://c" }).map (fun r => r.2.mLocation) =
        some "/p?u=b://c".toList ∧
      (asyncReceiveHeader sampleLib { s with sock := answer "/p?u=b://c" }).result.map (fun r => r.2.mLocation) =
        some "/p?u=b://c".toList := by
  decide

end HttpClient

end Avbot.Http
