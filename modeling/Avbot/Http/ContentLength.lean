import Avbot.Http.HeaderFields
import Avbot.Http.Open

/-!
# Bodies of a given length

On a connection that is kept alive the end of a body is where as many bytes have been read as `m_content_length` says: the greatest of the value of `Content-Length` and the number after the slash of `Content-Range`, which is the size of the whole resource. The reads do not stop there; they end with the piece of input they are in.
-/

namespace Avbot.Http

open List SegmentedInput Scanner
open HttpOptions (statusCode)

def rangeTotal (value : Str) : Option Int :=
  match value.dropWhile (· ≠ '/') with
  | '/' :: c :: tmp => some (strtoll (Str.cStr (c :: tmp)))
  | _ => none

def lengthValue (o : Str × Str) : Option Int :=
  if headersEqual o.1 "Content-Length".toList then some (strtoll (Str.cStr o.2))
  else if headersEqual o.1 "Content-Range".toList then rangeTotal o.2
  else none

def combineLength (length : Int) (o : Str × Str) : Int := (lengthValue o).elim length fun n => max n length

theorem checkHeader_contentLength (known : KnownHeaders) (name value : Str) :
    (checkHeader known name value).contentLength = combineLength known.contentLength (name, value) := by
  unfold checkHeader combineLength lengthValue
  by_cases htype : headersEqual name "Content-Type".toList = true
  · rw [if_pos htype, headersEqual_of_ne htype (by decide), headersEqual_of_ne htype (by decide)]
    rfl
  rw [if_neg htype]
  by_cases hlength : headersEqual name "Content-Length".toList = true
  · rw [if_pos hlength, if_pos hlength]
    rfl
  rw [if_neg hlength, if_neg hlength]
  by_cases hlocation : headersEqual name "Location".toList = true
  · rw [if_pos hlocation, headersEqual_of_ne hlocation (by decide)]
    rfl
  rw [if_neg hlocation]
  by_cases hrange : headersEqual name "Content-Range".toList = true
  · rw [if_pos hrange, if_pos hrange, rangeTotal]
    generalize value.dropWhile (· ≠ '/') = text
    obtain _ | ⟨d, _ | ⟨c, tmp⟩⟩ := text
    · rfl
    · by_cases hd : d = '/' <;> simp [hd]
    · by_cases hd : d = '/' <;> simp [hd]
  · rw [if_neg hrange, if_neg hrange]
    rfl

theorem foldl_combineLength_le_iff {opts : List (Str × Str)} {start n : Int} :
    opts.foldl combineLength start ≤ n ↔ start ≤ n ∧ ∀ o ∈ opts, ∀ t ∈ lengthValue o, t ≤ n := by
  induction opts generalizing start with
  | nil => simp
  | cons o opts ih =>
    rw [foldl_cons, ih, forall_mem_cons, combineLength, ← and_assoc]
    cases hvalue : lengthValue o with
    | none => simp
    | some t => simp [and_comm]

theorem foldl_checkHeader_contentLength (opts : List (Str × Str)) (known : KnownHeaders) :
    (opts.foldl (fun known o => checkHeader known o.1 o.2) known).contentLength =
      opts.foldl combineLength known.contentLength := by
  induction opts generalizing known with
  | nil => rfl
  | cons o opts ih => rw [foldl_cons, ih, checkHeader_contentLength, foldl_cons]

theorem scan_headers_length {p : HeadersState × Headers} {text rest : Str} {h : Headers}
    (hscan : scan headersStep p text = some (h, rest)) :
    ∃ more, h.headers = p.2.headers ++ more ∧
      h.known.contentLength = more.foldl combineLength p.2.known.contentLength := by
  obtain ⟨more, hheaders, hknown⟩ := scan_headers_known hscan
  exact ⟨more, hheaders, by rw [hknown, foldl_checkHeader_contentLength]⟩

/-- Before a request no length is known, and after a call without an error it is that of the headers, with none of the body read. -/
def Opening.LengthFromHeaders : Opening → Prop
  | .connecting s => s.mContentLength = -1
  | .returned none s => s.mBodySize = 0 ∧ s.mContentLength = s.mResponseOpts.foldl combineLength (-1)
  | _ => True

namespace HttpClient

variable {lib : HttpLib} {s s' : HttpClient}

theorem length_of_finishHeader {lib : CookieLib} {ec : Option OpenErrc} {header : Str}
    (hfinish : finishHeader lib ec header s = (none, s')) :
    s'.mBodySize = s.mBodySize ∧ ∃ more, s'.mResponseOpts = s.mResponseOpts ++ more ∧
      s'.mContentLength = more.foldl combineLength s.mContentLength := by
  unfold finishHeader at hfinish
  dsimp only at hfinish
  split at hfinish
  case h_1 => simp at hfinish
  case h_2 h rest hparse =>
    obtain ⟨more, hheaders, hlength⟩ := scan_headers_length hparse
    obtain ⟨-, rfl⟩ := Prod.mk.inj hfinish
    exact ⟨rfl, more, hheaders, hlength⟩

theorem length_of_receiveHeader {lib : CookieLib} (hstart : s.mContentLength = -1)
    (hheader : s.receiveHeader lib = some (none, s')) :
    s'.mBodySize = s.mBodySize ∧ s'.mContentLength = s'.mResponseOpts.foldl combineLength (-1) := by
  rcases receiveHeader_cases hheader with ⟨hec, -⟩ | ⟨status, header, s₁, ec₁, ⟨r, k, c, rfl⟩, hfinish⟩
  · exact absurd rfl hec
  · obtain ⟨hbody, more, hopts, hlength⟩ := length_of_finishHeader hfinish
    refine ⟨hbody, ?_⟩
    have hstatus : combineLength (-1) (statusCode, status) = -1 := by
      unfold combineLength lengthValue
      rw [show headersEqual statusCode "Content-Length".toList = false by decide,
        show headersEqual statusCode "Content-Range".toList = false by decide]
      rfl
    rw [hlength, hopts]
    show more.foldl combineLength s.mContentLength = more.foldl combineLength (combineLength (-1) _)
    rw [hstart, hstatus]

theorem lengthFromHeaders_beginOpen (s : HttpClient) (u : Url) : (s.beginOpen lib u).LengthFromHeaders := by
  rw [beginOpen]
  split
  · trivial
  · rfl

theorem lengthFromHeaders_finishOpen {httpCode : Option OpenErrc}
    (h : httpCode = none → s.mBodySize = 0 ∧ s.mContentLength = s.mResponseOpts.foldl combineLength (-1)) :
    (s.finishOpen lib httpCode).LengthFromHeaders := by
  rw [finishOpen]
  dsimp only
  split
  · split
    · split
      · trivial
      · exact lengthFromHeaders_beginOpen _ _
    · rename_i hredirect _
      rcases hredirect with rfl | rfl <;> trivial
  · cases httpCode with
    | none => exact h rfl
    | some ec => trivial

theorem lengthFromHeaders_exchange {hop : Hop} (hlength : s.mContentLength = -1) (hbody : s.mBodySize = 0) :
    (s.exchange lib hop).LengthFromHeaders := by
  rw [exchange]
  split
  · rename_i hwrite
    refine lengthFromHeaders_finishOpen fun hnone => ?_
    rw [hnone] at hwrite
    simp at hwrite
  · split
    · exact lengthFromHeaders_finishOpen (by simp)
    · split
      case h_1 => trivial
      case h_2 httpCode s' hheader =>
        refine lengthFromHeaders_finishOpen fun hnone => ?_
        rw [hnone] at hheader
        obtain ⟨hkept, hsum⟩ := length_of_receiveHeader (s := s.connectTo hop) hlength hheader
        exact ⟨hkept.trans hbody, hsum⟩

end HttpClient

theorem OpenRun.lengthFromHeaders_step {lib : HttpLib} {r r' : OpenRun} {hop : Hop} (hlength : r.phase.LengthFromHeaders)
    (hstep : OpenRun.step lib r hop = some r') : r'.phase.LengthFromHeaders := by
  rcases stepWith_cases hstep with ⟨ending, rfl | ⟨ec, s, rfl⟩, rfl⟩ | ⟨s, request, s', hphase, -, hbuild, rfl⟩
  · trivial
  · trivial
  · rw [hphase] at hlength
    obtain ⟨-, -, newUrl, opts, rfl⟩ := HttpClient.buildRequest_spec hbuild
    exact HttpClient.lengthFromHeaders_exchange hlength rfl

theorem openUrl_lengthFromHeaders {lib : HttpLib} {s s' : HttpClient} {u : Url} {hops : List Hop} {r : OpenRun}
    (hrun : openUrl lib s u hops = some r) (hphase : r.phase = .returned none s') :
    s'.mBodySize = 0 ∧ s'.mContentLength = s'.mResponseOpts.foldl combineLength (-1) := by
  have hlength : r.phase.LengthFromHeaders :=
    EventMachine.invariant_of_run (fun _ _ _ h hstep => OpenRun.lengthFromHeaders_step h hstep)
      (HttpClient.lengthFromHeaders_beginOpen s u) hrun
  rw [hphase] at hlength
  exact hlength

namespace HttpStream

variable {s s' : HttpStream} {n : Nat}

/-- The reads return the body, each of them a part of it and no error, and the next one returns at once and leaves the stream as it is. -/
def Delivers (s : HttpStream) (body : Str) (sizes : Nat → Nat) : Prop :=
  ∃ k results s', s.reads ((List.range k).map sizes) = some (results, s') ∧
    (∀ result ∈ results, result.ec = none ∧ result.bytes ≠ [] ∧ result.bytesTransferred = result.bytes.length) ∧
    (results.map ReadResult.bytes).flatten = body ∧
    s'.readSome (sizes k) = some (⟨[], 0, none⟩, s')

structure Counting (s : HttpStream) : Prop where
  not_chunked : s.mIsChunked = false
  keep_alive : s.mKeepAlive = true
  length : 0 ≤ s.mContentLength

theorem Counting.readSome (h : s.Counting) (n : Nat) :
    s.readSome n =
      if s.mBodySize = s.mContentLength then some (⟨[], 0, none⟩, s)
      else (s.readSomeImpl n).map fun (bytes, ec, s) =>
        (⟨bytes, bytes.length, ec⟩, { s with mBodySize := s.mBodySize + bytes.length }) := by
  have hlength := h.length
  rw [HttpStream.readSome, if_neg (by simp [h.not_chunked])]
  by_cases hend : s.mBodySize = s.mContentLength
  · rw [if_pos ⟨h.keep_alive, by omega, hend⟩, if_pos hend]
  · rw [if_neg (fun hall => hend hall.2.2), if_neg hend]

theorem Counting.readSome_piece (h : s.Counting) {p : Str} {rest : List Str} (hpieces : s.pieces = p :: rest) (n : Nat)
    (hopen : s.mBodySize ≠ s.mContentLength) :
    ∃ s', s.readSome n = some (⟨p.take n, (p.take n).length, none⟩, s') ∧ s'.Counting ∧
      s'.mContentLength = s.mContentLength ∧ s'.mBodySize = s.mBodySize + (p.take n).length ∧
      s'.pieces = if p.length ≤ n then rest else p.drop n :: rest := by
  obtain ⟨r, k, hread, hrest⟩ := readSomeImpl_piece hpieces n
  refine ⟨{ s.moved r k with mBodySize := s.mBodySize + (p.take n).length }, ?_, ?_, rfl, rfl, hrest⟩
  · rw [h.readSome, if_neg hopen, hread]
    rfl
  · exact ⟨h.not_chunked, h.keep_alive, h.length⟩

theorem reads_cons (sizes : Nat → Nat) (k : Nat) {result : ReadResult} (hread : s.readSome (sizes 0) = some (result, s')) :
    s.reads ((List.range (k + 1)).map sizes) =
      (s'.reads ((List.range k).map fun i => sizes (i + 1))).map fun (results, s) => (result :: results, s) := by
  rw [range_succ_eq_map, map_cons, map_map, reads, hread]
  rfl

theorem Counting.delivers (h : s.Counting) {front back : List Str} (hpieces : s.pieces = front ++ back)
    (hlength : s.mBodySize + front.flatten.length = s.mContentLength) (sizes : Nat → Nat) (hsizes : ∀ i, 0 < sizes i) :
    s.Delivers front.flatten sizes := by
  -- every read takes something from the pieces of the body
  induction hleft : front.flatten.length using Nat.strong_induction_on generalizing s front sizes with
  | _ left ih =>
    cases front with
    | nil =>
      have hend : s.mBodySize = s.mContentLength := by simpa using hlength
      exact ⟨0, [], s, rfl, by simp, rfl, by rw [h.readSome, if_pos hend]⟩
    | cons p front =>
      have hp : p ≠ [] := ne_nil_of_mem_pieces (s := s) (by rw [hpieces]; simp)
      have hpos := length_pos_iff.mpr hp
      have hsum : (p :: front).flatten.length = p.length + front.flatten.length := by simp
      have hopen : s.mBodySize ≠ s.mContentLength := by omega
      obtain ⟨s₁, hread, hcounting, hcontent, hbody, hrest⟩ := h.readSome_piece hpieces (sizes 0) hopen
      -- what is left of the body, as pieces
      obtain ⟨front', hpieces', hsplit⟩ : ∃ front', s₁.pieces = front' ++ back ∧
          (p :: front).flatten = p.take (sizes 0) ++ front'.flatten := by
        by_cases hlong : p.length ≤ sizes 0
        · refine ⟨front, by rw [hrest, if_pos hlong]; rfl, ?_⟩
          rw [take_of_length_le hlong, flatten_cons]
        · refine ⟨p.drop (sizes 0) :: front, by rw [hrest, if_neg hlong]; rfl, ?_⟩
          rw [flatten_cons, flatten_cons, ← append_assoc, take_append_drop]
      have htaken : p.take (sizes 0) ≠ [] := by
        have := hsizes 0
        rw [ne_eq, take_eq_nil_iff, not_or]
        exact ⟨by omega, hp⟩
      have hlengths := congrArg List.length hsplit
      rw [length_append] at hlengths
      have htakenPos := length_pos_iff.mpr htaken
      obtain ⟨k, results, s', hreads, hresults, hbytes, hend⟩ :=
        ih front'.flatten.length (by omega) hcounting hpieces' (by omega) (fun i => sizes (i + 1))
          (fun i => hsizes (i + 1)) rfl
      refine ⟨k + 1, ⟨p.take (sizes 0), (p.take (sizes 0)).length, none⟩ :: results, s', ?_, ?_, ?_, hend⟩
      · rw [reads_cons sizes k hread, hreads]
        rfl
      · rw [forall_mem_cons]
        exact ⟨⟨rfl, htaken, rfl⟩, hresults⟩
      · rw [map_cons, flatten_cons, hbytes, hsplit]

theorem Counting.eq_of_readSome (h : s.Counting) {result : ReadResult} (hread : s.readSome n = some (result, s'))
    (hec : result.ec = none) (hbytes : result.bytes ≠ []) :
    ∃ p rest, s.pieces = p :: rest ∧ result.bytes = p.take n ∧ s'.Counting ∧ s'.mContentLength = s.mContentLength ∧
      s'.mBodySize = s.mBodySize + result.bytes.length ∧ s'.pieces = if p.length ≤ n then rest else p.drop n :: rest := by
  by_cases hend : s.mBodySize = s.mContentLength
  · rw [h.readSome, if_pos hend] at hread
    obtain ⟨rfl, -⟩ := Prod.mk.inj (Option.some.inj hread)
    exact absurd rfl hbytes
  · cases hpieces : s.pieces with
    | nil =>
      rw [h.readSome, if_neg hend, readSomeImpl_no_piece hpieces] at hread
      obtain ⟨⟨bytes, ec, s₁⟩, hsome, heq⟩ := Option.map_eq_some_iff.mp hread
      obtain ⟨rfl, -⟩ := Prod.mk.inj heq
      split at hsome
      · obtain ⟨rfl, -⟩ := Prod.mk.inj (Option.some.inj hsome)
        exact absurd rfl hbytes
      · split at hsome
        · obtain ⟨rfl, -⟩ := Prod.mk.inj (Option.some.inj hsome)
          exact absurd rfl hbytes
        · simp at hsome
    | cons p rest =>
      obtain ⟨s₁, hread', hcounting, hcontent, hbody, hrest⟩ := h.readSome_piece hpieces n hend
      obtain ⟨rfl, rfl⟩ := Prod.mk.inj (Option.some.inj (hread'.symm.trans hread))
      exact ⟨p, rest, rfl, rfl, hcounting, hcontent, hbody, hrest⟩

theorem Counting.reads_spec (h : s.Counting) {ns : List Nat} {results : List ReadResult}
    (hreads : s.reads ns = some (results, s')) (hresults : ∀ result ∈ results, result.ec = none ∧ result.bytes ≠ []) :
    s'.Counting ∧ s'.mContentLength = s.mContentLength ∧
      s'.mBodySize = s.mBodySize + (results.map ReadResult.bytes).flatten.length ∧
      ((∀ n ∈ ns, ∀ p ∈ s.pieces, p.length ≤ n) → s.pieces = results.map ReadResult.bytes ++ s'.pieces) := by
  induction ns generalizing s results with
  | nil =>
    obtain ⟨rfl, rfl⟩ := Prod.mk.inj (Option.some.inj hreads)
    exact ⟨h, rfl, by simp, fun _ => rfl⟩
  | cons n ns ih =>
    rw [reads] at hreads
    split at hreads
    case h_1 => simp at hreads
    case h_2 result s₁ hread =>
      obtain ⟨⟨results', s''⟩, hrest, heq⟩ := Option.map_eq_some_iff.mp hreads
      obtain ⟨rfl, rfl⟩ := Prod.mk.inj heq
      obtain ⟨hfirst, hmore⟩ := forall_mem_cons.mp hresults
      obtain ⟨p, rest, hpieces, hbytes, hcounting, hcontent, hbody, hpieces'⟩ := h.eq_of_readSome hread hfirst.1 hfirst.2
      obtain ⟨hcounting', hcontent', hbody', hwhole⟩ := ih hcounting hrest hmore
      refine ⟨hcounting', hcontent'.trans hcontent, ?_, ?_⟩
      · rw [hbody', hbody, map_cons, flatten_cons, length_append]
        push_cast
        omega
      · intro hlarge
        have hp : p.length ≤ n := hlarge n mem_cons_self p (by rw [hpieces]; exact mem_cons_self)
        rw [if_pos hp] at hpieces'
        have hlarge' : ∀ m ∈ ns, ∀ q ∈ s₁.pieces, q.length ≤ m := by
          intro m hm q hq
          rw [hpieces'] at hq
          exact hlarge m (mem_cons_of_mem n hm) q (by rw [hpieces]; exact mem_cons_of_mem p hq)
        rw [hpieces, map_cons, hbytes, take_of_length_le hp, ← hpieces', hwhole hlarge']
        rfl

theorem Counting.end_of_readSome (h : s.Counting) (hn : 0 < n) (hread : s.readSome n = some (⟨[], 0, none⟩, s')) :
    s.mBodySize = s.mContentLength := by
  by_contra hopen
  cases hpieces : s.pieces with
  | nil =>
    rw [h.readSome, if_neg hopen, readSomeImpl_no_piece hpieces, if_neg (Nat.ne_of_gt hn)] at hread
    split at hread <;> simp at hread
  | cons p rest =>
    obtain ⟨s₁, hread', -⟩ := h.readSome_piece hpieces n hopen
    have hnil : p.take n = [] := congrArg (fun r => r.1.bytes) (Option.some.inj (hread'.symm.trans hread))
    rw [take_eq_nil_iff] at hnil
    rcases hnil with hzero | hnil
    · omega
    · exact absurd hnil (ne_nil_of_mem_pieces (s := s) (by rw [hpieces]; exact mem_cons_self))

theorem Counting.delivers_iff (h : s.Counting) (hstart : s.mBodySize = 0) (body : Str) :
    (∀ sizes : Nat → Nat, (∀ i, 0 < sizes i) → s.Delivers body sizes) ↔
      s.mContentLength = body.length ∧ ∃ k, (s.pieces.take k).flatten = body := by
  constructor
  · intro hall
    have hlarge : ∀ p ∈ s.pieces, p.length ≤ s.pieces.flatten.length + 1 := by
      intro p hp
      have := (sublist_flatten_of_mem hp).length_le
      omega
    obtain ⟨k, results, s', hreads, hresults, rfl, hend⟩ := hall (fun _ => s.pieces.flatten.length + 1) fun _ => Nat.succ_pos _
    obtain ⟨hcounting, hcontent, hbody, hwhole⟩ := h.reads_spec hreads fun result hr => ⟨(hresults result hr).1, (hresults result hr).2.1⟩
    constructor
    · have hfull := hcounting.end_of_readSome (Nat.succ_pos _) hend
      omega
    · refine ⟨(results.map ReadResult.bytes).length, ?_⟩
      rw [hwhole (by simpa using fun _ => hlarge), take_left']
      rfl
  · rintro ⟨hlength, k, hpieces⟩ sizes hsizes
    rw [← hpieces]
    refine h.delivers (take_append_drop k s.pieces).symm ?_ sizes hsizes
    rw [hpieces, hlength, hstart]
    omega

end HttpStream

/-- The numbers of all `Content-Range` headers are at most this. -/
def RangesWithin (opts : List (Str × Str)) (n : Int) : Prop :=
  ∀ o ∈ opts, headersEqual o.1 "Content-Range".toList = true → ∀ t ∈ rangeTotal o.2, t ≤ n

instance (opts : List (Str × Str)) (n : Int) : Decidable (RangesWithin opts n) :=
  inferInstanceAs (Decidable (∀ o ∈ opts, headersEqual o.1 "Content-Range".toList = true → ∀ t ∈ rangeTotal o.2, t ≤ n))

variable {opts : List (Str × Str)} {o : Str × Str}

section

variable (honly : opts.filter (fun o => headersEqual o.1 "Content-Length".toList) = [o])

include honly

theorem lengthValue_of_only
    :
    strtoll (Str.cStr o.2) ≤ opts.foldl combineLength (-1) := by
  have ho : o ∈ opts.filter fun o => headersEqual o.1 "Content-Length".toList := by
    rw [honly]
    exact mem_singleton_self o
  obtain ⟨hmem, hname⟩ := mem_filter.mp ho
  exact (foldl_combineLength_le_iff.mp le_rfl).2 o hmem _ (by rw [lengthValue, if_pos hname]; rfl)

theorem foldl_combineLength_eq_iff {n : Nat} (hvalue : strtoll (Str.cStr o.2) = n) :
    opts.foldl combineLength (-1) = n ↔ RangesWithin opts n := by
  have hle := lengthValue_of_only honly
  have hiff : opts.foldl combineLength (-1) ≤ n ↔ RangesWithin opts n := by
    rw [foldl_combineLength_le_iff]
    constructor
    · rintro ⟨-, hall⟩ o' ho' hrange t ht
      refine hall o' ho' t ?_
      rw [lengthValue, headersEqual_of_ne hrange (by decide), if_neg (by simp), if_pos hrange]
      exact ht
    · intro hranges
      refine ⟨by omega, ?_⟩
      intro o' ho' t ht
      unfold lengthValue at ht
      split at ht
      · rename_i hname
        have hmem : o' ∈ opts.filter fun o => headersEqual o.1 "Content-Length".toList :=
          mem_filter.mpr ⟨ho', hname⟩
        rw [honly] at hmem
        obtain rfl := mem_singleton.mp hmem
        exact ((Option.some.inj ht).symm.trans hvalue).le
      · split at ht
        · rename_i hrange
          exact hranges o' ho' hrange t ht
        · simp at ht
  rw [← hiff]
  omega

end

def keepAliveClient : HttpClient := { HttpClient.fresh with mRequestOptsPriv := [("Connection".toList, "keep-alive".toList)] }

def partialAnswer (total : String) : Hop :=
  ⟨none, 0, none, ⟨["HTTP/1.1 206 Partial Content\r\nContent-Length: 5\r\nContent-Range: bytes 0-4/".toList ++ total.toList ++
    "\r\n\r\nab".toList, "cde".toList], by simp⟩, none⟩

def Opening.stream : Opening → Option HttpClient
  | .returned none s => some s
  | _ => none

theorem Opening.eq_of_stream {phase : Opening} {s : HttpClient} (h : phase.stream = some s) : phase = .returned none s := by
  cases phase with
  | returned ec s' =>
    cases ec with
    | none => rw [Option.some.inj h]
    | some ec => simp [Opening.stream] at h
  | _ => simp [Opening.stream] at h

theorem exists_stream {run : Option OpenRun} (p : HttpClient → Prop) [DecidablePred p]
    (h : ((run.bind fun r => r.phase.stream).map fun s => decide (p s)) = some true) :
    ∃ r s, run = some r ∧ r.phase = .returned none s ∧ p s := by
  obtain ⟨s, hs, hp⟩ := Option.map_eq_some_iff.mp h
  obtain ⟨r, hr, hstream⟩ := Option.bind_eq_some_iff.mp hs
  exact ⟨r, s, hr, Opening.eq_of_stream hstream, of_decide_eq_true hp⟩

end Avbot.Http
