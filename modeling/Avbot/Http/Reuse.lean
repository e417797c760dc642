import Avbot.Http.AsyncRead
import Avbot.Http.ContentLength
import Avbot.Http.Location
import Avbot.Http.OpenAlike

/-!
# One stream for many responses

A stream can be opened, read, closed and opened again, and on a connection that is kept alive it makes one request after the other. What `open` and `request` do not set anew stays as the responses before have left it. An https URL is opened over a socket that is a member of the stream, `m_nossl_socket`, and not over a new one.
-/

namespace Avbot.Http

open Option SegmentedInput
open HttpOptions (connection statusCode transferEncoding)
open Httpd (Options)

def OpenErrc.networkReset : OpenErrc := system 102

structure Settings where
  requestOpts : Options
  fakeContinue : Bool
  proxy : ProxySettings
  maxRedirects : Nat

/-! ### The calls of the user -/

namespace HttpClient

def configured (s : HttpClient) (settings : Settings) : HttpClient :=
  { s with
    mRequestOptsPriv := settings.requestOpts, mFakeContinue := settings.fakeContinue, mProxy := settings.proxy,
    mMaxRedirects := settings.maxRedirects }

def buildRequestOf (lib : CookieLib) (now : Int) (opts : Options) (s : HttpClient) : Option (Request × HttpClient) :=
  let (newUrl, opts) := takeOption opts HttpOptions.url []
  (s.resetRequest.replaceUrl newUrl).map (composeRequest lib now s.mUrl.host opts)

def receiving (hop : Hop) (s : HttpClient) : HttpClient :=
  { s with sock := s.sock.append hop.sock, ending := hop.ending, closed := decide (hop.ending = some OpenErrc.eof) }

def request (lib : HttpLib) (opts : Options) (hop : Hop) (s : HttpClient) : Opening :=
  match s.buildRequestOf lib.toCookieLib hop.now opts with
  | none => .thrown
  | some (_, s) =>
    let s := s.receiving hop
    if hop.write.isSome then .returned hop.write s
    else if s.mFakeContinue then .returned (some .fakeContinue) s
    else
      match s.receiveHeader lib.toCookieLib with
      | none => .waiting
      | some (ec, s) => .returned ec s

def close (s : HttpClient) : HttpClient :=
  { s.closeSock with mResponse := [], mContentType := [], mLocation := [], mProtocol := [] }

end HttpClient

def Opening.isOpen : Opening → Bool
  | .returned _ s => s.ending ≠ some .badDescriptor
  | _ => false

/-- A stream in the hands of a user. -/
structure Session where
  /-- Where the call of `open` is, or that there is none. -/
  phase : Opening
  /-- `m_sock` is the one over `m_nossl_socket`. -/
  secure : Bool
  plainOpen : Bool
  nosslOpen : Bool
  /-- The connections that this call of `open` has made before. -/
  followed : Nat

namespace Session

def isOpen (σ : Session) : Bool := if σ.secure then σ.nosslOpen else σ.plainOpen

def setOpen (σ : Session) (b : Bool) : Session := if σ.secure then { σ with nosslOpen := b } else { σ with plainOpen := b }

/-- `m_sock` is made anew, which closes a plain socket but not `m_nossl_socket`. -/
def enter (σ : Session) : Opening → Session
  | .connecting s =>
    if s.mProtocol = "http".toList then { σ with phase := .connecting s, secure := false, plainOpen := false }
    else if σ.nosslOpen then { σ with phase := .returned (some .alreadyOpen) s, secure := true, plainOpen := false }
    else { σ with phase := .connecting s, secure := true, plainOpen := false }
  | phase => { σ with phase := phase }

inductive Event where
  | configure (settings : Settings)
  | open (u : Url)
  /-- What the network does for one connection, and whether a socket that could not be connected is left open. -/
  | respond (hop : Hop) (left : Bool)
  /-- A call of `request`, and what the network does for it. The connection is there. -/
  | request (opts : Options) (hop : Hop)
  | readSome (n : Nat)
  | close

def step (lib : HttpLib) (σ : Session) (e : Event) : Option Session :=
  match σ.phase, e with
  | .connecting s, .respond hop left =>
    (OpenRun.step lib ⟨[], .connecting s⟩ hop).map fun r =>
      if hop.connect.isSome then { σ.setOpen left with phase := r.phase }
      else { σ.setOpen r.phase.isOpen with followed := σ.followed + 1 }.enter r.phase
  | .returned ec s, .configure settings => some { σ with phase := .returned ec (s.configured settings) }
  | .returned _ s, .open u => some ({ σ with followed := 0 }.enter (s.beginOpen lib u))
  | .returned _ s, .request opts hop =>
    if σ.isOpen then some { σ with phase := s.request lib opts hop }
    else some { σ with phase := .returned (some .networkReset) s }
  | .returned ec s, .readSome n =>
    (s.toHttpStream.readSome n).map fun (_, stream) => { σ with phase := .returned ec { s with toHttpStream := stream } }
  | .returned _ s, .close => some { σ.setOpen false with phase := .returned none (if σ.isOpen then s.close else s) }
  | _, _ => none

def start (settings : Settings) : Session := ⟨.returned none (HttpClient.fresh.configured settings), false, false, false, 0⟩

end Session

/-! ### What the user gets of a response -/

structure Delivered where
  status : Int
  headers : Options
  contentLength : Int
  /-- The bytes of the reads into buffers of these sizes, and how they end. -/
  body : List Nat → Str × Ending

def HttpClient.delivered (s : HttpClient) : Delivered :=
  ⟨s.mStatusCode, s.mResponseOpts, s.mContentLength, chain HttpStream.readSome s.toHttpStream⟩

def Opening.delivered : Opening → Option (Option OpenErrc × Delivered)
  | .returned ec s => some (ec, s.delivered)
  | _ => none

def HttpClient.renewed (s : HttpClient) (followed : Nat) : HttpClient :=
  { HttpClient.fresh.resetOpen s.mUrl with
    mProtocol := s.mProtocol, mRedirects := followed, mMaxRedirects := s.mMaxRedirects, mProxy := s.mProxy,
    mRequestOptsPriv := s.mRequestOptsPriv, mFakeContinue := s.mFakeContinue }

def Opening.renewed (followed : Nat) : Opening → Opening
  | .connecting s => .connecting (s.renewed followed)
  | .returned ec s => .returned ec (s.renewed 0)
  | .waiting => .waiting
  | .thrown => .thrown

/-- A new stream with the same settings in the place of the stream. It has no connection when it is opened, and otherwise that of the call. -/
def Session.renewed (σ : Session) (e : Event) : Session :=
  { σ with
    phase := σ.phase.renewed σ.followed
    nosslOpen := match e with
      | .open _ => false
      | _ => σ.secure && σ.nosslOpen }

namespace Answer

def list (a : Answer) : Options := (statusCode, Str.decimalInt a.status) :: a.headers

def length (a : Answer) : Int := a.headers.foldl combineLength (-1)

def chunked (a : Answer) : Bool := a.list.find transferEncoding = "chunked".toList

end Answer

namespace Session

/-- The next response, or the call that is to get it. -/
def Event.Brings (lib : HttpLib) (a : Answer) : Event → Prop
  | .open u => u.protocol = "http".toList ∨ lib.enableOpenssl = true ∧ u.protocol = "https".toList
  | .respond hop _ => hop.connect = none ∧ hop.write = none ∧ hop.sock.content = a.text
  | .request _ hop => hop.write = none ∧ hop.sock.content = a.text
  | _ => False

def Event.secure : Event → Bool
  | .open u => u.protocol = "https".toList
  | _ => false

def receiver (σ : Session) (e : Event) : Option (HttpClient × Bool) :=
  match σ.phase, e with
  | .connecting s, .respond _ _ => some (s, false)
  | .returned _ s, .request _ _ => some (s, true)
  | _, _ => none

end Session

namespace HttpClient

def CleanFor (s : HttpClient) (a : Answer) : Prop := s.mFakeContinue = false ∧ (s.mChunkedSize = 0 ∨ a.chunked = false)

def CleanBehind (s : HttpClient) (a : Answer) : Prop :=
  s.sock.segs = [] ∧ -1 ≤ s.mContentLength ∧ s.mContentLength ≤ a.length

instance (s : HttpClient) (a : Answer) : Decidable (s.CleanFor a) := inferInstanceAs (Decidable (_ ∧ _))

instance (s : HttpClient) (a : Answer) : Decidable (s.CleanBehind a) := inferInstanceAs (Decidable (_ ∧ _))

end HttpClient

namespace Session

/-- The redirects of earlier calls do not count, and if the answer is followed, it has a location of its own and no connection of an earlier https URL is in the way. -/
def CleanMoved (σ : Session) (s : HttpClient) (a : Answer) : Prop :=
  (s.mRedirects < s.mMaxRedirects ↔ σ.followed < s.mMaxRedirects) ∧
    (σ.followed < s.mMaxRedirects → (s.mLocation = [] ∨ a.location.isSome = true) ∧ (σ.secure = true ∨ σ.nosslOpen = false))

instance (σ : Session) (s : HttpClient) (a : Answer) : Decidable (σ.CleanMoved s a) := inferInstanceAs (Decidable (_ ∧ _))

def Clean (σ : Session) (a : Answer) (e : Event) : Prop :=
  (e.secure = true → σ.nosslOpen = false) ∧ ∀ r ∈ σ.receiver e, r.1.CleanFor a ∧
    (r.2 = true → σ.isOpen = true ∧ r.1.CleanBehind a) ∧ (r.2 = false ∧ (a.status = 301 ∨ a.status = 302) → σ.CleanMoved r.1 a)

instance (σ : Session) (a : Answer) (e : Event) : Decidable (σ.Clean a e) := inferInstanceAs (Decidable (_ ∧ ∀ r ∈ σ.receiver e, _))

end Session

/-! ### The length before a response -/

namespace Session

def LengthUnset (σ : Session) : Prop := ∀ s, σ.phase = .connecting s → s.mContentLength = -1

variable {lib : HttpLib} {σ σ' : Session} {e : Event}

theorem request_ne_connecting (lib : HttpLib) (opts : Options) (hop : Hop) (s s' : HttpClient) :
    s.request lib opts hop ≠ .connecting s' := by
  rw [HttpClient.request]
  split
  · simp
  · dsimp only
    split
    · simp
    · split
      · simp
      · split <;> simp

theorem eq_of_enter {phase : Opening} {s : HttpClient} (h : (σ.enter phase).phase = .connecting s) : phase = .connecting s := by
  cases phase with
  | connecting s' =>
    rw [enter] at h
    split at h
    · exact h
    · split at h
      · cases h
      · exact h
  | waiting | returned | thrown => exact h

theorem lengthUnset_step (hunset : σ.LengthUnset) (hstep : step lib σ e = some σ') : σ'.LengthUnset := by
  intro s' hphase'
  unfold step at hstep
  split at hstep
  case h_1 s hop left hphase =>
    obtain ⟨r, hr, rfl⟩ := map_eq_some_iff.mp hstep
    have hlength : r.phase.LengthFromHeaders := OpenRun.lengthFromHeaders_step (r := ⟨[], .connecting s⟩) (hunset s hphase) hr
    split at hphase'
    · rw [show r.phase = .connecting s' from hphase'] at hlength
      exact hlength
    · rw [eq_of_enter hphase'] at hlength
      exact hlength
  case h_2 =>
    obtain rfl := some.inj hstep
    cases hphase'
  case h_3 ec s u hphase =>
    have hlength : (s.beginOpen lib u).LengthFromHeaders := HttpClient.lengthFromHeaders_beginOpen s u
    obtain rfl := some.inj hstep
    rw [eq_of_enter hphase'] at hlength
    exact hlength
  case h_4 ec s opts hop hphase =>
    split at hstep
    · obtain rfl := some.inj hstep
      exact absurd hphase' (request_ne_connecting lib opts hop s s')
    · obtain rfl := some.inj hstep
      cases hphase'
  case h_5 =>
    obtain ⟨read, -, rfl⟩ := map_eq_some_iff.mp hstep
    cases hphase'
  case h_6 =>
    obtain rfl := some.inj hstep
    cases hphase'
  case h_7 => cases hstep

theorem lengthUnset_of_run {settings : Settings} {history : List Event}
    (hrun : EventMachine.run (step lib) (start settings) history = some σ) : σ.LengthUnset :=
  EventMachine.invariant_of_run (fun _ _ _ hunset hstep => lengthUnset_step hunset hstep) (fun s hs => by cases hs) hrun

end Session

/-! ### Reads that chunks do not matter to -/

namespace HttpStream

variable {s : HttpStream}

def resized (s : HttpStream) (m : Nat) : HttpStream := { s with mChunkedSize := m }

def cleared (s : HttpStream) (length : Int) : HttpStream := { s with mChunkedSize := 0, mContentLength := length }

theorem resized_self (hsize : s.mChunkedSize = 0) : s.resized 0 = s := by
  rw [← hsize]
  rfl

theorem resized_eq {length : Int} (hlength : s.mContentLength = length) : s.resized 0 = s.cleared length := by
  rw [← hlength]
  rfl

theorem sockRead_resized (s : HttpStream) (m n : Nat) :
    (s.resized m).sockRead n = (s.sockRead n).map fun (bytes, ec, t) => (bytes, ec, t.resized m) := by
  unfold sockRead resized
  cases s.sock.read n with
  | some read => rfl
  | none =>
    by_cases hn : n = 0
    · simp only [hn, if_true, map_some]
    · by_cases hclosed : s.closed = true <;> simp [hn, hclosed]

theorem readSomeImpl_resized (s : HttpStream) (m n : Nat) :
    (s.resized m).readSomeImpl n = (s.readSomeImpl n).map fun (bytes, ec, t) => (bytes, ec, t.resized m) := by
  by_cases hresponse : s.mResponse = []
  · rw [← sockRead_eq hresponse, ← sockRead_eq (s := s.resized m) hresponse, sockRead_resized]
  · rw [readSomeImpl, readSomeImpl, if_pos hresponse]
    exact if_pos hresponse

variable {n : Nat} {t : HttpStream}

theorem moved_of_readSomeImpl {bytes : Str} {ec : Option StreamErrc}
    (hread : s.readSomeImpl n = some (bytes, ec, t)) : ∃ r k, t = s.moved r k := by
  cases hpieces : s.pieces with
  | nil =>
    rw [readSomeImpl_no_piece hpieces] at hread
    split at hread
    · exact ⟨s.mResponse, s.sock, (Prod.mk.inj (Prod.mk.inj (some.inj hread)).2).2.symm⟩
    · split at hread
      · exact ⟨s.mResponse, s.sock, (Prod.mk.inj (Prod.mk.inj (some.inj hread)).2).2.symm⟩
      · cases hread
  | cons p rest =>
    obtain ⟨r, k, hpiece, -⟩ := readSomeImpl_piece hpieces n
    rw [hpiece] at hread
    exact ⟨r, k, (Prod.mk.inj (Prod.mk.inj (some.inj hread)).2).2.symm⟩

section

variable (hnot : s.mIsChunked = false)

include hnot

theorem readSome_plain (n : Nat) :
    s.readSome n = if s.mKeepAlive ∧ s.mContentLength ≠ -1 ∧ s.mBodySize = s.mContentLength then some (⟨[], 0, none⟩, s)
      else (s.readSomeImpl n).map fun (bytes, ec, t) =>
        (⟨bytes, bytes.length, ec⟩, { t with mBodySize := t.mBodySize + bytes.length }) := by
  rw [readSome, if_neg (by simp [hnot])]

theorem readSome_resized (m n : Nat) :
    (s.resized m).readSome n = (s.readSome n).map fun (result, t) => (result, t.resized m) := by
  rw [readSome_plain hnot, readSome_plain (s := s.resized m) hnot, readSomeImpl_resized]
  by_cases hend : s.mKeepAlive ∧ s.mContentLength ≠ -1 ∧ s.mBodySize = s.mContentLength
  · rw [if_pos hend]
    exact if_pos hend
  · rw [if_neg hend]
    refine (if_neg hend).trans ?_
    rw [map_map, map_map]
    rfl

theorem mIsChunked_of_readSome {result : ReadResult}
    (hread : s.readSome n = some (result, t)) : t.mIsChunked = false := by
  rw [readSome_plain hnot] at hread
  split at hread
  · obtain ⟨-, rfl⟩ := Prod.mk.inj (some.inj hread)
    exact hnot
  · obtain ⟨⟨bytes, ec, t'⟩, himpl, heq⟩ := map_eq_some_iff.mp hread
    obtain ⟨-, rfl⟩ := Prod.mk.inj heq
    obtain ⟨r, k, rfl⟩ := moved_of_readSomeImpl himpl
    exact hnot

theorem chain_resized (m : Nat) (ns : List Nat) : chain readSome (s.resized m) ns = chain readSome s ns := by
  induction ns generalizing s with
  | nil => rfl
  | cons n ns ih =>
    rw [chain, chain, readSome_resized hnot]
    cases hread : s.readSome n with
    | none => rfl
    | some read =>
      obtain ⟨result, t⟩ := read
      have hrest := ih (mIsChunked_of_readSome hnot hread)
      rw [map_some]
      dsimp only
      rw [hrest]
      rfl

end

end HttpStream

/-! ### The next response -/

def Answer.bodyStream (a : Answer) (requestOpts : Options) (sock : Pending Char) (closed : Bool) : Option HttpStream :=
  (HttpClient.takeLines (a.headerLines.length + 2) [] sock).map fun (mResponse, sock) =>
    { mIsChunked := a.chunked
      mSkipCrlf := true
      mIsChunkedEnd := false
      mKeepAlive := !decide (requestOpts.find connection = "close".toList ∨
        a.list.find connection = "close".toList)
      mChunkedSize := 0
      mContentLength := a.length
      mBodySize := 0
      mResponse := mResponse
      sock := sock
      closed := closed }

namespace HttpClient

variable {s : HttpClient} {a : Answer}

def asked (s : HttpClient) (u : Url) (opts : Options) : HttpClient := { s.resetRequest with mUrl := u, mRequestOpts := opts }

theorem finishHeader_stream (lib : CookieLib) (ec : Option OpenErrc) {text rest : Str} {h : Headers}
    (hparse : parseHttpHeaders ⟨s.mContentType, s.mContentLength, s.mLocation⟩ s.mResponseOpts text = some (h, rest)) :
    ∃ s', finishHeader lib ec text s = (ec, s') ∧ s'.mStatusCode = s.mStatusCode ∧ s'.mResponseOpts = h.headers ∧
      s'.mLocation = s.fixLocation h.known.location ∧ s'.mRedirects = s.mRedirects ∧ s'.mMaxRedirects = s.mMaxRedirects ∧
      s'.toHttpStream = { s.toHttpStream with
        mContentLength := h.known.contentLength
        mIsChunked := s.mIsChunked || Httpd.Options.find h.headers transferEncoding = "chunked".toList
        mKeepAlive := s.mKeepAlive && !decide (s.mRequestOpts.find connection = "close".toList ∨
          Httpd.Options.find h.headers connection = "close".toList) } := by
  rw [finishHeader]
  rw [hparse]
  exact ⟨_, rfl, rfl, rfl, rfl, rfl, rfl, rfl⟩

/-- What `receive_header` makes of a stream when this answer comes. -/
structure Took (a : Answer) (s s' : HttpClient) : Prop where
  status : s'.mStatusCode = a.status
  headers : s'.mResponseOpts = a.list
  location : s'.mLocation = s.fixLocation (a.location.getD s.mLocation)
  redirects : s'.mRedirects = s.mRedirects
  maxRedirects : s'.mMaxRedirects = s.mMaxRedirects
  length : s'.mContentLength = a.headers.foldl combineLength s.mContentLength
  size : s'.mChunkedSize = s.mChunkedSize
  stream : a.bodyStream s.mRequestOpts s.sock s.closed = some (s'.toHttpStream.cleared a.length)

variable {hop : Hop}

theorem receiveHeader_took (lib : CookieLib) (s : HttpClient) (u : Url) (o : Options) (hsock : hop.sock.content = a.text) :
    ∃ s', ((s.asked u o).connectTo hop).receiveHeader lib = some (statusErrc a.status, s') ∧
      Took a ((s.asked u o).connectTo hop) s' := by
  obtain ⟨more, sock, hreceive, -, htake⟩ := receiveHeader_answer (s := (s.asked u o).connectTo hop) lib hsock
  obtain ⟨h, hparse, hheaders⟩ := a.parseHttpHeaders_eq ⟨s.mContentType, s.mContentLength, s.mLocation⟩
    [(statusCode, Str.decimalInt a.status)]
  have hlength : h.known.contentLength = a.headers.foldl combineLength s.mContentLength := by
    obtain ⟨added, hadded, hlength⟩ := scan_headers_length hparse
    obtain rfl : a.headers = added := List.append_cancel_left (hheaders.symm.trans hadded)
    exact hlength
  have hlocation : h.known.location = a.location.getD s.mLocation := by
    obtain ⟨added, hadded, hknown⟩ := scan_headers_known hparse
    obtain rfl : a.headers = added := List.append_cancel_left (hheaders.symm.trans hadded)
    rw [hknown]
    exact foldl_checkHeader_location _ _
  obtain ⟨s', hfinish, hstatus, hopts, hlocated, hredirects, hmax, hstream⟩ :=
    finishHeader_stream (s := (((s.asked u o).connectTo hop).afterStatus a).placed more sock) lib (statusErrc a.status) hparse
  refine ⟨s', by rw [hreceive, hfinish], ⟨hstatus, hopts.trans hheaders, ?_, hredirects, hmax, ?_, ?_, ?_⟩⟩
  · rw [hlocated, hlocation]
    rfl
  · rw [hstream]
    exact hlength
  · rw [hstream]
    rfl
  · rw [Answer.bodyStream, htake, hstream, hheaders]
    rfl

variable {opts : Options} {t : HttpClient}

theorem foldl_combineLength_eq {c : Int} (hlow : -1 ≤ c) (hle : c ≤ opts.foldl combineLength (-1)) :
    opts.foldl combineLength c = opts.foldl combineLength (-1) := by
  have hvalues := (foldl_combineLength_le_iff.mp (le_refl (opts.foldl combineLength (-1)))).2
  obtain ⟨hstart, hvalues'⟩ := foldl_combineLength_le_iff.mp (le_refl (opts.foldl combineLength c))
  exact le_antisymm (foldl_combineLength_le_iff.mpr ⟨hle, hvalues⟩)
    (foldl_combineLength_le_iff.mpr ⟨hlow.trans hstart, hvalues'⟩)

/-- The same to the user: two streams that differ at most in the rest of a chunk, which nobody reads. -/
structure SameReads (s t : HttpClient) : Prop where
  status : s.mStatusCode = t.mStatusCode
  headers : s.mResponseOpts = t.mResponseOpts
  stream : s.toHttpStream.resized 0 = t.toHttpStream
  size : s.mChunkedSize = 0 ∨ s.mIsChunked = false

theorem SameReads.delivered (h : s.SameReads t) : s.delivered = t.delivered := by
  have hlength : s.mContentLength = t.mContentLength := (congrArg HttpStream.mContentLength h.stream :)
  have hbody : chain HttpStream.readSome s.toHttpStream = chain HttpStream.readSome t.toHttpStream := by
    funext sizes
    rw [← h.stream]
    rcases h.size with hzero | hnot
    · rw [HttpStream.resized_self hzero]
    · exact (HttpStream.chain_resized hnot 0 sizes).symm
  rw [HttpClient.delivered, HttpClient.delivered, h.status, h.headers, hlength, hbody]

theorem SameReads.redirecting (h : s.SameReads t) : s.redirecting.SameReads t.redirecting :=
  ⟨h.status, h.headers, congrArg (fun stream : HttpStream => { stream with sock := .nil, closed := false }) h.stream, h.size⟩

theorem SameReads.closeMoved (h : s.SameReads t) : s.closeMoved.SameReads t.closeMoved := by
  rw [HttpClient.closeMoved, HttpClient.closeMoved, ← h.status]
  split
  · exact h.redirecting
  · exact h

theorem SameReads.resetOpen (h : s.SameReads t) (u : Url) : (s.resetOpen u).SameReads (t.resetOpen u) :=
  ⟨rfl, h.headers, congrArg (fun stream : HttpStream => { stream with
    mContentLength := -1, mBodySize := 0, mResponse := [], mSkipCrlf := true, mIsChunked := false }) h.stream, .inr rfl⟩

theorem sameReads_receiveHeader (lib : CookieLib) (hclean : s.CleanFor a) (hlow : -1 ≤ s.mContentLength)
    (hle : s.mContentLength ≤ a.length) (n : Nat) (u : Url) (o : Options) (hsock : hop.sock.content = a.text) :
    ∃ s' t', ((s.asked u o).connectTo hop).receiveHeader lib = some (statusErrc a.status, s') ∧
      (((s.renewed n).asked u o).connectTo hop).receiveHeader lib = some (statusErrc a.status, t') ∧
      Took a ((s.asked u o).connectTo hop) s' ∧ Took a (((s.renewed n).asked u o).connectTo hop) t' ∧ s'.SameReads t' := by
  obtain ⟨s', hreceive, hs⟩ := receiveHeader_took lib s u o hsock
  obtain ⟨t', hreceive', ht⟩ := receiveHeader_took lib (s.renewed n) u o hsock
  have hs' : s'.mContentLength = a.length := hs.length.trans (foldl_combineLength_eq hlow hle)
  have hchunked : s'.mIsChunked = a.chunked := by
    obtain ⟨rest, -, hrest⟩ := map_eq_some_iff.mp hs.stream
    exact (congrArg HttpStream.mIsChunked hrest).symm
  refine ⟨s', t', hreceive, hreceive', hs, ht, hs.status.trans ht.status.symm, hs.headers.trans ht.headers.symm, ?_, ?_⟩
  · calc s'.toHttpStream.resized 0 = s'.toHttpStream.cleared a.length := HttpStream.resized_eq hs'
      _ = t'.toHttpStream.cleared a.length := some.inj (hs.stream.symm.trans ht.stream)
      _ = t'.toHttpStream.resized 0 := (HttpStream.resized_eq ht.length).symm
      _ = t'.toHttpStream := HttpStream.resized_self ht.size
  · rw [hs.size, hchunked]
    exact hclean.2

theorem buildRequestOf_cases (lib : CookieLib) (now : Int) (opts : Options) (s : HttpClient) (n : Nat) :
    (s.buildRequestOf lib now opts = none ∧ (s.renewed n).buildRequestOf lib now opts = none) ∨
      ∃ q q' u o, s.buildRequestOf lib now opts = some (q, s.asked u o) ∧
        (s.renewed n).buildRequestOf lib now opts = some (q', (s.renewed n).asked u o) := by
  unfold buildRequestOf replaceUrl composeRequest composeRequestWith
  dsimp only
  by_cases hempty : (takeOption opts HttpOptions.url []).1 = []
  · rw [if_pos hempty, if_pos hempty]
    exact .inr ⟨_, _, _, _, rfl, rfl⟩
  · rw [if_neg hempty, if_neg hempty]
    cases Url.fromString (takeOption opts HttpOptions.url []).1 with
    | none => exact .inl ⟨rfl, rfl⟩
    | some u => exact .inr ⟨_, _, _, _, rfl, rfl⟩

end HttpClient

/-- The same to the user. -/
inductive Opening.SameReads : Opening → Opening → Prop
  | connecting {s t : HttpClient} (h : s.mProtocol = t.mProtocol) : SameReads (.connecting s) (.connecting t)
  | returned (ec : Option OpenErrc) {s t : HttpClient} (h : s.SameReads t) : SameReads (.returned ec s) (.returned ec t)
  | thrown : SameReads .thrown .thrown

theorem Opening.SameReads.delivered {o o' : Opening} (h : o.SameReads o') : o.delivered = o'.delivered := by
  cases h with
  | connecting | thrown => rfl
  | returned ec h => exact congrArg (fun d => some (ec, d)) h.delivered

theorem Opening.SameReads.isOpen {o o' : Opening} (h : o.SameReads o') {s : HttpClient} (hs : o = .connecting s) :
    o'.isOpen = false := by
  subst hs
  cases h
  rfl

namespace HttpClient

variable {s t : HttpClient} {a : Answer} {opts : Options} {hop : Hop}

theorem SameReads.beginOpen (lib : HttpLib) (h : s.SameReads t) (u : Url) : (s.beginOpen lib u).SameReads (t.beginOpen lib u) := by
  rcases beginOpen_cases lib u with hconnecting | hreturned
  · rw [hconnecting s, hconnecting t]
    exact .connecting rfl
  · rw [hreturned s, hreturned t]
    exact .returned _ (h.resetOpen u)

theorem SameReads.finishOpen (lib : HttpLib) (h : s.SameReads t) {status : Nat} (hcode : s.mStatusCode = status)
    (hmoved : status = 301 ∨ status = 302 → (s.mRedirects < s.mMaxRedirects ↔ t.mRedirects < t.mMaxRedirects) ∧
      (s.mRedirects < s.mMaxRedirects → s.mLocation = t.mLocation)) :
    (s.finishOpen lib (statusErrc status)).SameReads (t.finishOpen lib (statusErrc status)) := by
  have hcode' : t.mStatusCode = status := h.status.symm.trans hcode
  have hfollows : s.Follows ↔ t.Follows := by
    rw [Follows, Follows, hcode, hcode']
    exact and_congr_right fun hstatus => (hmoved (by omega)).1
  by_cases hs : s.Follows
  · have hlocation := (hmoved (by have := hs.1; omega)).2 hs.2
    rw [finishOpen_of_follows hcode hs, finishOpen_of_follows hcode' (hfollows.mp hs), ← hlocation]
    cases Url.fromString s.mLocation with
    | none => exact .thrown
    | some u => exact h.redirecting.beginOpen lib u
  · rw [finishOpen_of_not_follows hcode hs, finishOpen_of_not_follows hcode' (mt hfollows.mpr hs)]
    have hclosed := h.closeMoved
    exact .returned _ ⟨hclosed.status, hclosed.headers, hclosed.stream, hclosed.size⟩

theorem sameReads_exchange (lib : HttpLib) (hclean : s.CleanFor a) (hlow : -1 ≤ s.mContentLength) (hle : s.mContentLength ≤ a.length)
    (n : Nat) (u : Url) (o : Options) (hwrite : hop.write = none) (hsock : hop.sock.content = a.text)
    (hmoved : a.status = 301 ∨ a.status = 302 → (s.mRedirects < s.mMaxRedirects ↔ n < s.mMaxRedirects) ∧
      (s.mRedirects < s.mMaxRedirects → s.mLocation = [] ∨ a.location.isSome = true)) :
    ((s.asked u o).exchange lib hop).SameReads (((s.renewed n).asked u o).exchange lib hop) ∧
      ∀ s', (s.asked u o).exchange lib hop = .connecting s' →
        (a.status = 301 ∨ a.status = 302) ∧ s.mRedirects < s.mMaxRedirects := by
  obtain ⟨s', t', hreceive, hreceive', hs, ht, hsame⟩ := sameReads_receiveHeader lib.toCookieLib hclean hlow hle n u o hsock
  rw [exchange_of_receiveHeader (s := s.asked u o) hclean.1 hwrite hreceive,
    exchange_of_receiveHeader (s := (s.renewed n).asked u o) hclean.1 hwrite hreceive']
  refine ⟨hsame.finishOpen lib hs.status fun hcode => ?_, fun s₁ hnext => ?_⟩
  case refine_2 =>
    have hfollows : s'.Follows := by
      by_contra hnot
      rw [finishOpen_of_not_follows hs.status hnot] at hnext
      cases hnext
    rw [Follows, hs.status, hs.redirects, hs.maxRedirects] at hfollows
    exact ⟨by have := hfollows.1; omega, hfollows.2⟩
  obtain ⟨hredirects, hlocation⟩ := hmoved hcode
  rw [hs.redirects, hs.maxRedirects, ht.redirects, ht.maxRedirects, hs.location, ht.location]
  refine ⟨hredirects, fun hfollow => ?_⟩
  show fixLocation _ (a.location.getD s.mLocation) = fixLocation _ (a.location.getD [])
  rcases hlocation hfollow with hempty | hsome
  · rw [hempty]
    rfl
  · obtain ⟨p, hp⟩ := isSome_iff_exists.mp hsome
    rw [hp]
    rfl

theorem receiving_eq (hsegs : s.sock.segs = []) (hop : Hop) : s.receiving hop = s.connectTo hop := by
  have happend : s.sock.append hop.sock = hop.sock := by
    apply Pending.ext
    show s.sock.segs ++ hop.sock.segs = hop.sock.segs
    rw [hsegs, List.nil_append]
  rw [receiving, connectTo, happend]

theorem request_of_receiveHeader {lib : HttpLib} {q : Request} {s₁ s' : HttpClient} {ec : Option OpenErrc}
    (hbuild : s.buildRequestOf lib.toCookieLib hop.now opts = some (q, s₁)) (hfake : s₁.mFakeContinue = false)
    (hsegs : s₁.sock.segs = []) (hwrite : hop.write = none)
    (hreceive : (s₁.connectTo hop).receiveHeader lib.toCookieLib = some (ec, s')) : s.request lib opts hop = .returned ec s' := by
  rw [request, hbuild]
  dsimp only
  rw [receiving_eq hsegs, if_neg (by simp [hwrite]), if_neg (by simp [connectTo, hfake]), hreceive]

end HttpClient

namespace Session

variable {lib : HttpLib} {σ τ : Session} {a : Answer} {s : HttpClient} {hop : Hop}

theorem neg_one_le_length (a : Answer) : -1 ≤ a.length := (foldl_combineLength_le_iff.mp (le_refl a.length)).1

theorem sameReads_enter {o o' : Opening} (h : o.SameReads o') (hclosed : ∀ s, o = .connecting s →
      s.mProtocol = "http".toList ∨ σ.nosslOpen = false ∧ τ.nosslOpen = false) :
    (σ.enter o).phase.SameReads (τ.enter o').phase := by
  cases h with
  | connecting h =>
    rw [enter, enter, ← h]
    rcases hclosed _ rfl with hhttp | ⟨hσ, hτ⟩
    · rw [if_pos hhttp, if_pos hhttp]
      exact .connecting h
    · rw [hσ, hτ]
      split
      · exact .connecting h
      · exact .connecting h
  | returned ec h => exact .returned ec h
  | thrown => exact .thrown

theorem sameReads_respond (lib : HttpLib) (hlength : s.mContentLength = -1) (hclean : s.CleanFor a) (hconnect : hop.connect = none)
    (hwrite : hop.write = none) (hsock : hop.sock.content = a.text) (hmoved : a.status = 301 ∨ a.status = 302 → σ.CleanMoved s a) :
    ∃ r r', OpenRun.step lib ⟨[], .connecting s⟩ hop = some r ∧
      OpenRun.step lib ⟨[], .connecting (s.renewed σ.followed)⟩ hop = some r' ∧ r.phase.SameReads r'.phase ∧
      ∀ s', r.phase = .connecting s' → σ.secure = true ∨ σ.nosslOpen = false := by
  rw [OpenRun.step, OpenRun.stepWith, OpenRun.stepWith, hconnect]
  dsimp only
  rcases HttpClient.buildRequestOf_cases lib.toCookieLib hop.now s.mRequestOptsPriv s σ.followed with
    ⟨hnone, hnone'⟩ | ⟨q, q', u, o, hsome, hsome'⟩
  · rw [show s.buildRequest lib.toCookieLib hop.now = none from hnone,
      show (s.renewed σ.followed).buildRequest lib.toCookieLib hop.now = none from hnone']
    exact ⟨_, _, rfl, rfl, .thrown, fun _ h => by cases h⟩
  · rw [show s.buildRequest lib.toCookieLib hop.now = some _ from hsome,
      show (s.renewed σ.followed).buildRequest lib.toCookieLib hop.now = some _ from hsome']
    obtain ⟨hsame, hnext⟩ := HttpClient.sameReads_exchange lib hclean (by omega) (by have := neg_one_le_length a; omega)
      σ.followed u o hwrite hsock fun hstatus => ⟨(hmoved hstatus).1, fun h => ((hmoved hstatus).2 ((hmoved hstatus).1.mp h)).1⟩
    refine ⟨_, _, rfl, rfl, hsame, fun s' hs' => ?_⟩
    obtain ⟨hstatus, hfollow⟩ := hnext s' hs'
    exact ((hmoved hstatus).2 ((hmoved hstatus).1.mp hfollow)).2

theorem delivered_request (lib : HttpLib) (opts : Options) (hclean : s.CleanFor a) (hbehind : s.CleanBehind a)
    (hwrite : hop.write = none) (hsock : hop.sock.content = a.text) :
    (s.request lib opts hop).delivered = ((s.renewed 0).request lib opts hop).delivered := by
  obtain ⟨hsegs, hlow, hle⟩ := hbehind
  rcases HttpClient.buildRequestOf_cases lib.toCookieLib hop.now opts s 0 with ⟨hnone, hnone'⟩ | ⟨q, q', u, o, hsome, hsome'⟩
  · rw [HttpClient.request, HttpClient.request, hnone, hnone']
  · obtain ⟨s', t', hreceive, hreceive', -, -, hsame⟩ :=
      HttpClient.sameReads_receiveHeader lib.toCookieLib hclean hlow hle 0 u o hsock
    rw [HttpClient.request_of_receiveHeader hsome hclean.1 hsegs hwrite hreceive,
      HttpClient.request_of_receiveHeader hsome' hclean.1 rfl hwrite hreceive']
    exact (Opening.SameReads.returned _ hsame).delivered

theorem nosslOpen_setOpen (h : σ.secure = true ∨ σ.nosslOpen = false) : (σ.setOpen false).nosslOpen = false := by
  rw [setOpen]
  split
  · rfl
  · exact h.resolve_left ‹_›

end Session

/-! ### What is left over -/

def keepAliveSettings : Settings := ⟨[(connection, "keep-alive".toList)], false, ⟨.none, [], []⟩, 5⟩

def chunkedHello : Answer :=
  { sampleAnswer with
    headerLines := ["Transfer-Encoding: chunked".toList]
    body := "5\r\nhello\r\n0\r\n\r\n".toList
    headers := [("Transfer-Encoding".toList, "chunked".toList)]
    headerLine_chars := by decide
    headers_accepted := by decide +kernel }

def hello : Answer :=
  { sampleAnswer with
    headerLines := ["Content-Length: 5".toList]
    body := "hello".toList
    headers := [("Content-Length".toList, "5".toList)]
    headerLine_chars := by decide
    headers_accepted := by decide +kernel }

def Answer.hop (a : Answer) : Hop := ⟨none, 0, none, a.piece, none⟩

namespace Session

def lateHop : Hop :=
  ⟨none, 0, none, ⟨["HTTP/1.1 200 OK\r\nTransfer-Encoding: chunked\r\n\r\n5\r\nhello\r\n0\r\n".toList, "\r\n".toList], by decide⟩, none⟩

def shows {β : Type} (view : Delivered → β) (σ : Session) (e : Event) : Option β :=
  ((step sampleLib σ e).bind (·.phase.delivered)).map fun d => view d.2

theorem shows_of_run {β : Type} {view : Delivered → β} {history : List Event} {e : Event} {x y : Option β}
    (hviews : (EventMachine.run (step sampleLib) (start keepAliveSettings) history).map
      (fun σ => (shows view σ e, shows view (σ.renewed e) e)) = some (x, y)) :
    ∃ σ, EventMachine.run (step sampleLib) (start keepAliveSettings) history = some σ ∧ shows view σ e = x ∧
      shows view (σ.renewed e) e = y := by
  obtain ⟨σ, hrun, hpair⟩ := map_eq_some_iff.mp hviews
  exact ⟨σ, hrun, congrArg Prod.fst hpair, congrArg Prod.snd hpair⟩

end Session

end Avbot.Http
