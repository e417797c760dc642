import Avbot.Httpd.ReadRequest

/-!
# The RPC server

`avbot_rpc_server::client_loop` serves one connection. For the body of a `POST` it reads the difference between the `Content-Length` and the size of the buffer, and passes on the whole buffer. The difference is computed on unsigned numbers.
-/

namespace Avbot.Rpc

open List Pattern SegmentedInput Httpd Option
open HttpOptions (connection requestMethod requestUri)

inductive Action where
  | post (text : Str)
  | respond (status : Int)
  | pop
  | search (c q date : Str)
  deriving DecidableEq

inductive RoundEnd where
  | waiting
  | threw (e : Exn)
  | returned
  | next (pieces : List Str)
  deriving DecidableEq

/-- The expression `/search\?channel=([^&]*)&q=([^&]*)&date=([^&]*).*`. -/
def searchRegex : Regex Char :=
  ⟨lit "/search?channel=".toList ++ [.many (· != '&')] ++ lit "&q=".toList ++ [.many (· != '&')] ++ lit "&date=".toList ++
    [.many (· != '&'), .many fun _ => true], [(16, 1), (20, 1), (27, 1)]⟩

/-- The expression `/search(\?)?`. -/
def bareSearchRegex : Regex Char := ⟨lit "/search".toList ++ [.opt (· == '?')], [(7, 1)]⟩

/-- The expression `/status(\?)?`. -/
def statusRegex : Regex Char := ⟨lit "/status".toList ++ [.opt (· == '?')], [(7, 1)]⟩

def serveGet (uri : Str) (pieces : List Str) : List Action × RoundEnd :=
  if uri = "/message".toList then ([.pop], .next pieces)
  else
    match searchRegex.full uri with
    | some what => ([.search (what.getD 1 []) (what.getD 2 []) (what.getD 3 [])], .returned)
    | none =>
      if (bareSearchRegex.full uri).isSome then ([.respond 500], .returned)
      else if (statusRegex.full uri).isSome then ([], .next pieces)
      else ([.respond 404], .returned)

def bytesRequested (request : Options) (streambuf : Str) : Except Exn Nat :=
  (Str.lexicalCastSize (request.find HttpOptions.contentLength)).map fun contentLength =>
    (contentLength + Str.sizeLimit - streambuf.length % Str.sizeLimit) % Str.sizeLimit

/-- A `POST`. The status of the response is what `process_post` makes of the text. -/
def servePost (processPost : Str → Int) (closed : Bool) (request : Options) (streambuf : Str) (pieces : List Str) :
    List Action × RoundEnd :=
  match bytesRequested request streambuf with
  | .error e => ([], .threw e)
  | .ok n =>
    if pieces.flatten.length < n ∧ ¬ closed then ([], .waiting)
    else
      let (body, pieces) := readExactly n pieces
      let text := streambuf ++ body
      ([.post text, .respond (processPost text)],
        if request.find connection ≠ "keep-alive".toList then .returned else .next pieces)

def clientRound (processPost : Str → Int) (closed : Bool) (pieces : List Str) : List Action × RoundEnd :=
  match asyncReadRequest pieces closed with
  | .waiting => ([], .waiting)
  | .failed e =>
    if e = .postWithoutContent then ([.respond 204], .returned)
    else if e = .headerMissingHost then ([.respond 400], .returned)
    else ([], .returned)
  | .accepted request streambuf pieces =>
    if request.find requestMethod = "GET".toList then serveGet (request.find requestUri) pieces
    else if request.find requestMethod = "POST".toList then
      servePost processPost closed request streambuf pieces
    else ([], .next pieces)

/-- The number of bytes to read is the `Content-Length` without those in the buffer, and what is passed on is the first `Content-Length` bytes after the header. -/
def ReadsBody (processPost : Str → Int) (closed : Bool) (pieces : List Str) (request : Options) (streambuf : Str) : Prop :=
  ∃ (length : Int) (n : Nat) (after : Str),
    Str.intValue (request.find HttpOptions.contentLength) = some length ∧
    bytesRequested request streambuf = .ok n ∧ (n : Int) = length - streambuf.length ∧
    afterHeader pieces.flatten = some after ∧
    ∀ text, .post text ∈ (clientRound processPost closed pieces).1 ↔
      length ≤ after.length ∧ text = after.take length.toNat

variable {processPost : Str → Int} {closed : Bool} {pieces rest : List Str} {request : Options} {streambuf : Str}

theorem clientRound_post (haccept : asyncReadRequest pieces closed = .accepted request streambuf rest)
    (hpost : request.find requestMethod = "POST".toList) :
    clientRound processPost closed pieces = servePost processPost closed request streambuf rest := by
  have hget : request.find requestMethod ≠ "GET".toList := by
    rw [hpost]
    decide
  simp only [clientRound, haccept]
  rw [if_neg hget, if_pos hpost]

variable (processPost rest) in
theorem post_mem_servePost {n : Nat} (hn : bytesRequested request streambuf = .ok n) (text : Str) :
    .post text ∈ (servePost processPost closed request streambuf rest).1 ↔
      (n ≤ rest.flatten.length ∨ closed = true) ∧ text = streambuf ++ rest.flatten.take n := by
  simp only [servePost, hn]
  by_cases hwait : rest.flatten.length < n ∧ ¬ closed = true
  · rw [if_pos hwait]
    simp only [not_mem_nil, false_iff, not_and]
    rintro (h | h)
    · omega
    · exact absurd h hwait.2
  · rw [if_neg hwait]
    have hread : n ≤ rest.flatten.length ∨ closed = true := by
      by_cases hclosed : closed = true
      · exact .inr hclosed
      · exact .inl (Nat.le_of_not_lt fun h => hwait ⟨h, hclosed⟩)
    simp only [mem_cons, Action.post.injEq, reduceCtorEq, not_mem_nil, or_false, fst_readExactly, hread, true_and]

variable (streambuf) in
theorem bytesRequested_exact_iff {length : Int} (hlength : Str.intValue (request.find HttpOptions.contentLength) = some length) :
    (∃ n : Nat, bytesRequested request streambuf = .ok n ∧ (n : Int) = length - streambuf.length) ↔
      (streambuf.length : Int) ≤ length ∧ length < Str.sizeLimit := by
  rw [bytesRequested, Str.lexicalCastSize_of_intValue hlength, Str.sizeLimit]
  constructor
  · rintro ⟨n, hn, hexact⟩
    split at hn
    · omega
    · simp [Except.map] at hn
  · rintro ⟨hle, hlt⟩
    refine ⟨(length - streambuf.length).toNat, ?_, by omega⟩
    rw [if_pos (by omega), Except.map, Except.ok.injEq]
    omega

/-- The body of a `POST` is read as it should be exactly if its length is a number that fits, the piece with the end of the header has no more of it, and the peer does not close the connection before all of it has been sent. -/
theorem readsBody_iff (processPost : Str → Int) (haccept : asyncReadRequest pieces closed = .accepted request streambuf rest)
    (hpost : request.find requestMethod = "POST".toList) :
    ReadsBody processPost closed pieces request streambuf ↔
      ∃ (length : Nat) (after : Str),
        Str.intValue (request.find HttpOptions.contentLength) = some (length : Int) ∧ length < Str.sizeLimit ∧
        afterHeader pieces.flatten = some after ∧ overshoot (pieces.flatten.length - after.length) pieces ≤ length ∧
        (closed = true → length ≤ after.length) := by
  obtain ⟨hafter, hovershoot⟩ := asyncReadRequest_accepted haccept
  constructor
  · rintro ⟨length, n, after, hlength, hn, hexact, hafter', htext⟩
    obtain rfl : streambuf ++ rest.flatten = after := some.inj (hafter.symm.trans hafter')
    obtain ⟨hle, hlt⟩ := (bytesRequested_exact_iff streambuf hlength).mp ⟨n, hn, hexact⟩
    obtain ⟨k, rfl⟩ : ∃ k : Nat, length = k := ⟨length.toNat, by omega⟩
    refine ⟨k, _, hlength, by omega, hafter, by omega, ?_⟩
    intro hclosed
    rw [clientRound_post haccept hpost] at htext
    have hposted := (post_mem_servePost processPost rest hn _).mpr ⟨.inr hclosed, rfl⟩
    have := ((htext _).mp hposted).1
    omega
  · rintro ⟨k, after, hlength, hlt, hafter', hover, hclosed⟩
    obtain rfl : streambuf ++ rest.flatten = after := some.inj (hafter.symm.trans hafter')
    obtain ⟨n, hn, hexact⟩ := (bytesRequested_exact_iff streambuf hlength).mpr ⟨by omega, by omega⟩
    refine ⟨k, n, _, hlength, hn, hexact, hafter, ?_⟩
    intro text
    have htake : (streambuf ++ rest.flatten).take (k : Int).toNat = streambuf ++ rest.flatten.take n := by
      rw [Int.toNat_natCast, take_append, take_of_length_le (by omega)]
      congr 2
      omega
    rw [clientRound_post haccept hpost, post_mem_servePost processPost rest hn, htake, length_append]
    rw [length_append] at hclosed
    constructor
    · rintro ⟨h | h, rfl⟩
      · exact ⟨by omega, rfl⟩
      · have := hclosed h
        exact ⟨by omega, rfl⟩
    · rintro ⟨hall, rfl⟩
      exact ⟨.inl (by omega), rfl⟩

def samplePost (contentLength : String) : List Str :=
  ["POST / HTTP/1.0\r\nContent-Length: ".toList ++ contentLength.toList ++ "\r\n\r\nab".toList, "cd".toList]

def sampleRequest (contentLength : String) : Options :=
  [("_request_method".toList, "POST".toList), ("_request_uri".toList, "/".toList), ("_http_version".toList, "HTTP/1.0".toList),
    ("Content-Length".toList, contentLength.toList)]

theorem readsBody_of_samplePost :
    asyncReadRequest (samplePost "4") true = .accepted (sampleRequest "4") "ab".toList ["cd".toList] ∧
      (clientRound (fun _ => 200) true (samplePost "4")).1 = [.post "abcd".toList, .respond 200] ∧
      ReadsBody (fun _ => 200) true (samplePost "4") (sampleRequest "4") "ab".toList := by
  have haccept : asyncReadRequest (samplePost "4") true = .accepted (sampleRequest "4") "ab".toList ["cd".toList] := by
    decide
  refine ⟨haccept, by decide, (readsBody_iff _ haccept (by decide)).mpr ?_⟩
  exact ⟨4, "abcd".toList, by decide, by decide, by decide, by decide, by decide⟩

/-- The buffer holds more than the body: the number of bytes to read wraps around, and the server waits for them. -/
theorem short_post_wraps_around :
    asyncReadRequest (samplePost "1") false = .accepted (sampleRequest "1") "ab".toList ["cd".toList] ∧
      bytesRequested (sampleRequest "1") "ab".toList = .ok (Str.sizeLimit - 1) ∧
      clientRound (fun _ => 200) false (samplePost "1") = ([], .waiting) ∧
      ¬ ReadsBody (fun _ => 200) false (samplePost "1") (sampleRequest "1") "ab".toList := by
  refine ⟨by decide, by decide, by decide, ?_⟩
  rintro ⟨length, n, after, hlength, hn, hexact, _⟩
  have hone : Str.intValue ((sampleRequest "1").find HttpOptions.contentLength) = some 1 := by decide
  obtain rfl : 1 = length := some.inj (hone.symm.trans hlength)
  rw [show ("ab".toList.length : Int) = 2 from rfl] at hexact
  omega

end Avbot.Rpc
