import Avbot.Httpd.ReadRequest

/-!
# The head of a request

What `async_read_request_op` stores of a head that arrives in any pieces, and what it leaves in the buffer. A version that is not supported ends the operation at the request line.
-/

namespace Avbot.Httpd

open List Option Pattern SegmentedInput
open Str (crlf toLower toUpper)
open HttpOptions (contentLength host requestMethod requestUri)

variable {buf rest : Str} {pieces all : List Str} {closed : Bool}

structure RequestHeader where
  name : Str
  value : Str
  name_ne : name ≠ []
  name_clean : ∀ c ∈ name, c ≠ ':' ∧ c ≠ '\r' ∧ c ≠ '\n'
  value_front : value.head? ≠ some ' '
  value_clean : ∀ c ∈ value, c ≠ '\r' ∧ c ≠ '\n'

namespace RequestHeader

def line (h : RequestHeader) : Str := h.name ++ ':' :: ' ' :: h.value

def pair (h : RequestHeader) : Str × Str := (h.name, h.value)

def firstValue (headers : List RequestHeader) (name : Str) : Str :=
  ((headers.find? fun h => toLower h.name = toLower name).map value).getD []

def lines (headers : List RequestHeader) : Str := headers.flatMap (fun h => h.line ++ crlf) ++ crlf

end RequestHeader

structure RequestHead where
  method : Str
  uri : Str
  version : Str
  headers : List RequestHeader
  method_ne : method ≠ []
  method_letters : ∀ c ∈ method, c.isAlpha = true
  uri_ne : uri ≠ []
  uri_clean : ∀ c ∈ uri, c ≠ ' ' ∧ c ≠ '\r' ∧ c ≠ '\n'
  version_ne : version ≠ []
  version_clean : ∀ c ∈ version, c ≠ ' ' ∧ c ≠ '\r' ∧ c ≠ '\n'

namespace RequestHead

variable (head : RequestHead)

def requestLine : Str := head.method ++ ' ' :: (head.uri ++ ' ' :: head.version)

def text : Str := head.requestLine ++ crlf ++ RequestHeader.lines head.headers

/-- `boost::to_upper_copy(boost::trim_left_copy(...))` of the version. -/
def httpVersion : Str := toUpper (Str.trimLeft head.version)

def internal : Options :=
  [(requestMethod, toUpper head.method), (requestUri, head.uri),
    (HttpOptions.httpVersion, head.httpVersion)]

def Supported : Prop := head.httpVersion = "HTTP/1.1".toList ∨ head.httpVersion = "HTTP/1.0".toList

instance : Decidable head.Supported := inferInstanceAs (Decidable (_ ∨ _))

/-- An HTTP/1.1 head whose first `Host` is missing or empty. -/
def MissingHost : Prop :=
  head.httpVersion = "HTTP/1.1".toList ∧ RequestHeader.firstValue head.headers host = []

instance : Decidable head.MissingHost := inferInstanceAs (Decidable (_ ∧ _))

/-- A POST whose first `Content-Length` is missing or empty. -/
def MissingContent : Prop :=
  toUpper head.method = "POST".toList ∧ RequestHeader.firstValue head.headers contentLength = []

instance : Decidable head.MissingContent := inferInstanceAs (Decidable (_ ∧ _))

end RequestHead

theorem matchFront_rest (s : Str) : matchFront isEmpty [Item.many fun _ => true] s = some ([s], []) := by
  have hall : matchFront isEmpty [Item.many fun _ => true] (s ++ []) = some ([s], []) :=
    matchFront_greedy (m := ([], [])) rfl rfl (by simp [Item.many]) (by simp [Item.many]) (by simp) rfl
  rwa [append_nil] at hall

theorem RequestHeader.full_line (h : RequestHeader) : headerLineRegex.full h.line = some [h.line, h.name, h.value] := by
  have hblank : matchFront isEmpty [Item.many (· == ' '), Item.many fun _ => true] ([' '] ++ h.value) =
      some ([[' '], h.value], []) := by
    refine matchFront_greedy rfl rfl (by simp [Item.many]) (by simp [Item.many]) ?_ (matchFront_rest h.value)
    intro c hc
    have hne : c ≠ ' ' := fun hblank => h.value_front (hblank ▸ hc)
    simpa [Item.many] using hne
  have hcolon : matchFront isEmpty headerLineRegex.items.tail (':' :: ([' '] ++ h.value)) =
      some ([[':'], [' '], h.value], []) := by
    rw [headerLineRegex, tail_cons, matchFront_one (by simp), hblank]
    rfl
  have hname : matchFront isEmpty headerLineRegex.items (h.name ++ ':' :: ([' '] ++ h.value)) =
      some ([h.name, [':'], [' '], h.value], []) := by
    refine matchFront_greedy rfl rfl ?_ (by simp [Item.many]) (by simp [Item.many]) hcolon
    intro c hc
    simpa [Item.many] using (h.name_clean c hc).1
  rw [Regex.full, show h.line = h.name ++ ':' :: ([' '] ++ h.value) from rfl, hname]
  simp [Regex.what, headerLineRegex]

theorem RequestHead.full_requestLine (head : RequestHead) :
    requestLineRegex.full head.requestLine =
      some [head.requestLine, head.method, head.uri, ' ' :: head.version] := by
  have hone : ∀ t : Str, t ≠ [] → 1 ≤ t.length := fun t ht => length_pos_iff.mpr ht
  have hversion : matchFront isEmpty (requestLineRegex.items.drop 3) ([' '] ++ head.version) =
      some ([[' '], head.version], []) := by
    refine matchFront_greedy rfl rfl (by simp [Item.some]) (by simp [Item.some]) ?_ (matchFront_rest head.version)
    intro c hc
    simpa [Item.some] using (head.version_clean c (mem_of_mem_head? hc)).1
  have huri : matchFront isEmpty (requestLineRegex.items.drop 2) (head.uri ++ ([' '] ++ head.version)) =
      some ([head.uri, [' '], head.version], []) := by
    refine matchFront_greedy rfl rfl ?_ (hone _ head.uri_ne) (by simp [Item.some]) hversion
    intro c hc
    simpa [Item.some] using (head.uri_clean c hc).1
  have hblank : matchFront isEmpty (requestLineRegex.items.drop 1) ([' '] ++ (head.uri ++ ([' '] ++ head.version))) =
      some ([[' '], head.uri, [' '], head.version], []) := by
    refine matchFront_greedy rfl rfl (by simp [Item.some]) (by simp [Item.some]) ?_ huri
    intro c hc
    rw [head?_append_of_ne_nil _ head.uri_ne] at hc
    simpa [Item.some] using (head.uri_clean c (mem_of_mem_head? hc)).1
  have hmethod : matchFront isEmpty requestLineRegex.items
      (head.method ++ ([' '] ++ (head.uri ++ ([' '] ++ head.version)))) =
      some ([head.method, [' '], head.uri, [' '], head.version], []) := by
    refine matchFront_greedy rfl rfl head.method_letters (hone _ head.method_ne) ?_ hblank
    intro c hc
    obtain rfl : ' ' = c := some.inj hc
    rfl
  rw [Regex.full, show head.requestLine = head.method ++ ([' '] ++ (head.uri ++ ([' '] ++ head.version))) from rfl, hmethod]
  simp [Regex.what, requestLineRegex]

theorem RequestHead.storeRequestLine_requestLine (head : RequestHead) :
    storeRequestLine head.requestLine =
      (head.internal, if head.Supported then none else some .versionNotSupported) := by
  have hversion : toUpper (Str.trimLeft (' ' :: head.version)) = head.httpVersion := rfl
  rw [storeRequestLine, head.full_requestLine]
  simp only [getD_cons_succ, getD_cons_zero, hversion, requestOpts]
  by_cases hsupported : head.Supported
  · rw [if_neg fun hne => hsupported.elim hne.1 hne.2, if_pos hsupported]
    rfl
  · rw [if_pos (not_or.mp hsupported), if_neg hsupported]
    rfl

theorem readLine_of_flatten (line : Str) (hline : '\n' ∉ line) (hinput : buf ++ pieces.flatten = line ++ crlf ++ rest) :
    ∃ buf' pieces', readLine buf pieces = some (line, buf', pieces') ∧ buf' ++ pieces'.flatten = rest := by
  have hcut : cutLine (buf ++ pieces.flatten) = some (line, rest) := by
    rw [hinput, append_assoc]
    exact cutLine_line hline rest
  obtain ⟨got, pieces', huntil⟩ := @readUntil_isSome _ (fun b => (cutLine b).isSome) buf pieces (by rw [hcut]; rfl)
  obtain ⟨⟨line', buf'⟩, hgot⟩ := isSome_iff_exists.mp (readUntil_eq_some huntil).1
  have hread : readLine buf pieces = some (line', buf', pieces') := by
    rw [readLine, huntil, bind_some, hgot, map_some]
  obtain ⟨rfl, rfl⟩ := Prod.mk.inj (some.inj (hcut.symm.trans (cutLine_of_readLine hread)))
  exact ⟨buf', pieces', hread, rfl⟩

theorem RequestHeader.not_mem_line (h : RequestHeader) : '\n' ∉ h.line := by
  intro hmem
  rw [RequestHeader.line, mem_append, mem_cons, mem_cons] at hmem
  rcases hmem with hname | hcolon | hblank | hvalue
  · exact (h.name_clean _ hname).2.2 rfl
  · exact absurd hcolon (by decide)
  · exact absurd hblank (by decide)
  · exact (h.value_clean _ hvalue).2 rfl

theorem RequestHead.not_mem_requestLine (head : RequestHead) : '\n' ∉ head.requestLine := by
  intro hmem
  rw [RequestHead.requestLine, mem_append, mem_cons, mem_append, mem_cons] at hmem
  rcases hmem with hmethod | hblank | huri | hblank | hversion
  · exact absurd (head.method_letters _ hmethod) (by decide)
  · exact absurd hblank (by decide)
  · exact (head.uri_clean _ huri).2.2 rfl
  · exact absurd hblank (by decide)
  · exact (head.version_clean _ hversion).2.2 rfl

theorem storeHeaders_lines (opts : Options) (headers : List RequestHeader) {n : Nat} {consumed : Str} (hn : headers.length < n)
    (hreading : Reading all consumed buf pieces) (hinput : buf ++ pieces.flatten = RequestHeader.lines headers ++ rest) :
    ∃ buf' pieces', storeHeaders closed n opts buf pieces =
        some ⟨completionErrc (opts ++ headers.map RequestHeader.pair) none, opts ++ headers.map RequestHeader.pair, buf', pieces'⟩ ∧
      Reading all (consumed ++ RequestHeader.lines headers) buf' pieces' := by
  induction headers generalizing n opts buf pieces consumed with
  | nil =>
    obtain _ | n := n
    · cases hn
    obtain ⟨buf', pieces', hread, -⟩ := readLine_of_flatten [] not_mem_nil hinput
    refine ⟨buf', pieces', ?_, ?_⟩
    · rw [storeHeaders, hread, map_nil, append_nil]
      rfl
    · simpa [RequestHeader.lines] using reading_readLine hreading hread
  | cons h headers ih =>
    obtain _ | n := n
    · cases hn
    have hsplit : RequestHeader.lines (h :: headers) = h.line ++ crlf ++ RequestHeader.lines headers := by
      simp [RequestHeader.lines]
    rw [hsplit, append_assoc] at hinput
    obtain ⟨buf₁, pieces₁, hread, hrest⟩ := readLine_of_flatten h.line h.not_mem_line hinput
    have hne : h.line ≠ [] := by simp [RequestHeader.line]
    obtain ⟨buf', pieces', hstore, hdone⟩ := ih (opts.insert h.name h.value) (Nat.lt_of_succ_lt_succ hn)
      (reading_readLine hreading hread) hrest
    refine ⟨buf', pieces', ?_, ?_⟩
    · rw [storeHeaders, hread]
      simp only [if_neg hne, h.full_line]
      simpa [Options.insert, RequestHeader.pair] using hstore
    · simpa [hsplit] using hdone

theorem RequestHeader.length_lt_lines (headers : List RequestHeader) : headers.length < (RequestHeader.lines headers).length := by
  induction headers with
  | nil => decide
  | cons h headers ih =>
    have hsplit : (RequestHeader.lines (h :: headers)).length =
        (h.line ++ crlf).length + (RequestHeader.lines headers).length := by
      simp [RequestHeader.lines, Nat.add_assoc]
    have hcrlf : (h.line ++ crlf).length = h.line.length + 2 := length_append
    rw [hsplit, hcrlf, length_cons]
    omega

namespace RequestHead

variable (head : RequestHead)

theorem find_header {key : Str} (hmethod : toLower requestMethod ≠ toLower key)
    (huri : toLower requestUri ≠ toLower key) (hversion : toLower HttpOptions.httpVersion ≠ toLower key) :
    Options.find (head.internal ++ head.headers.map RequestHeader.pair) key = RequestHeader.firstValue head.headers key := by
  rw [Options.find, internal, cons_append, Options.find?_cons_of_ne hmethod, cons_append,
    Options.find?_cons_of_ne huri, cons_append, Options.find?_cons_of_ne hversion, nil_append,
    Options.find?, find?_map, Option.map_map]
  rfl

variable (headers : Options)

theorem find_method : Options.find (head.internal ++ headers) requestMethod = toUpper head.method := by
  rw [Options.find, internal, cons_append, Options.find?_cons_of_eq rfl]
  rfl

theorem find_uri : Options.find (head.internal ++ headers) requestUri = head.uri := by
  have hmethod : toLower requestMethod ≠ toLower requestUri := by decide
  rw [Options.find, internal, cons_append, Options.find?_cons_of_ne hmethod, cons_append, Options.find?_cons_of_eq rfl]
  rfl

theorem find_version : Options.find (head.internal ++ headers) HttpOptions.httpVersion = head.httpVersion := by
  have hmethod : toLower requestMethod ≠ toLower HttpOptions.httpVersion := by decide
  have huri : toLower requestUri ≠ toLower HttpOptions.httpVersion := by decide
  rw [Options.find, internal, cons_append, Options.find?_cons_of_ne hmethod, cons_append,
    Options.find?_cons_of_ne huri, cons_append, Options.find?_cons_of_eq rfl]
  rfl

theorem completionErrc_eq :
    completionErrc (head.internal ++ head.headers.map RequestHeader.pair) none =
      if head.MissingHost then some .headerMissingHost
      else if head.MissingContent then some .postWithoutContent
      else none := by
  have hhost := @find_header head host (by decide) (by decide) (by decide)
  have hlength := @find_header head contentLength (by decide) (by decide) (by decide)
  simp only [completionErrc, find_version, find_method, hhost, hlength]
  rfl

section

variable (hpieces : pieces.flatten = head.text ++ rest)

include hpieces

theorem readLine_requestLine :
    ∃ buf pieces', readLine [] pieces = some (head.requestLine, buf, pieces') ∧
      Reading pieces (head.requestLine ++ crlf) buf pieces' ∧
      buf ++ pieces'.flatten = RequestHeader.lines head.headers ++ rest := by
  rw [text, append_assoc] at hpieces
  obtain ⟨buf, pieces', hread, hrest⟩ := @readLine_of_flatten [] _ _ head.requestLine head.not_mem_requestLine hpieces
  have hstart : Reading pieces [] [] pieces := ⟨[], rfl, rfl, .inl rfl⟩
  have hnext : Reading pieces ([] ++ head.requestLine ++ crlf) buf pieces' := reading_readLine hstart hread
  grind

theorem asyncReadRequestOp_supported (hsupported : head.Supported) :
    ∃ buf pieces', asyncReadRequestOp pieces closed =
        some ⟨completionErrc (head.internal ++ head.headers.map RequestHeader.pair) none,
          head.internal ++ head.headers.map RequestHeader.pair, buf, pieces'⟩ ∧
      Reading pieces head.text buf pieces' := by
  obtain ⟨buf, pieces₁, hread, hreading, hrest⟩ := head.readLine_requestLine hpieces
  have hfuel : head.headers.length < buf.length + pieces₁.flatten.length + 1 := by
    have hlines := RequestHeader.length_lt_lines head.headers
    have hlength := congrArg length hrest
    grind
  obtain ⟨buf', pieces', hstore, hdone⟩ := storeHeaders_lines head.internal head.headers hfuel hreading hrest
  refine ⟨buf', pieces', ?_, hdone⟩
  rw [asyncReadRequestOp, hread]
  simp only [head.storeRequestLine_requestLine, if_pos hsupported]
  exact hstore

theorem asyncReadRequestOp_unsupported (hsupported : ¬ head.Supported) :
    ∃ buf pieces', asyncReadRequestOp pieces closed = some ⟨some .versionNotSupported, head.internal, buf, pieces'⟩ ∧
      Reading pieces (head.requestLine ++ crlf) buf pieces' := by
  obtain ⟨buf, pieces', hread, hreading, -⟩ := head.readLine_requestLine hpieces
  refine ⟨buf, pieces', ?_, hreading⟩
  rw [asyncReadRequestOp, hread]
  simp only [head.storeRequestLine_requestLine, if_neg hsupported]

end

/-- A head arrives in any pieces with any bytes behind it: what is stored, what is left in the buffer and which error is reported. -/
theorem asyncReadRequestOp_head (more : Str) (pieces : List Str) (closed : Bool)
    (hpieces : pieces.flatten = head.text ++ more) :
    ∃ done, asyncReadRequestOp pieces closed = some done ∧
      done.opts.find requestMethod = toUpper head.method ∧
      done.opts.find requestUri = head.uri ∧
      done.opts.find HttpOptions.httpVersion = head.httpVersion ∧
      (head.Supported →
        done.opts = head.internal ++ head.headers.map RequestHeader.pair ∧
        Reading pieces head.text done.streambuf done.pieces ∧
        done.streambuf ++ done.pieces.flatten = more) ∧
      (¬ head.Supported →
        done.opts = head.internal ∧
        Reading pieces (head.requestLine ++ crlf) done.streambuf done.pieces ∧
        done.streambuf ++ done.pieces.flatten = RequestHeader.lines head.headers ++ more) ∧
      (done.ec = some .versionNotSupported ↔ ¬ head.Supported) ∧
      (done.ec = some .headerMissingHost ↔ head.MissingHost) ∧
      (done.ec = some .postWithoutContent ↔ head.Supported ∧ ¬ head.MissingHost ∧ head.MissingContent) ∧
      (done.ec = none ↔ head.Supported ∧ ¬ head.MissingHost ∧ ¬ head.MissingContent) := by
  by_cases hsupported : head.Supported
  · obtain ⟨buf, pieces', hop, hreading⟩ := @asyncReadRequestOp_supported _ _ closed head hpieces hsupported
    have hleft : buf ++ pieces'.flatten = more :=
      append_cancel_left (hreading.flatten_eq.symm.trans hpieces)
    refine ⟨_, hop, head.find_method _, head.find_uri _, head.find_version _, fun _ => ⟨rfl, hreading, hleft⟩,
      fun hnot => absurd hsupported hnot, ?_⟩
    rw [head.completionErrc_eq]
    split_ifs <;> simp_all
  · obtain ⟨buf, pieces', hop, hreading⟩ := @asyncReadRequestOp_unsupported _ _ closed head hpieces hsupported
    have hleft : buf ++ pieces'.flatten = RequestHeader.lines head.headers ++ more := by
      refine append_cancel_left (hreading.flatten_eq.symm.trans ?_)
      rw [hpieces, text, append_assoc]
    have hhost : ¬ head.MissingHost := fun hmissing => hsupported (.inl hmissing.1)
    refine ⟨_, hop, head.find_method [], head.find_uri [], head.find_version [], fun hyes => absurd hyes hsupported,
      fun _ => ⟨rfl, hreading, hleft⟩, ?_⟩
    simp [hsupported, hhost]

def sample : RequestHead where
  method := "GET".toList
  uri := "/".toList
  version := "http/1.1".toList
  headers := [⟨"host".toList, "a".toList, by decide, by decide, by decide, by decide⟩]
  method_ne := by decide
  method_letters := by decide
  uri_ne := by decide
  uri_clean := by decide
  version_ne := by decide
  version_clean := by decide

theorem asyncReadRequestOp_head_sample :
    let pieces := ["GET / htt".toList, "p/1.1\r\nhost: a\r".toList, "\n\r\nmo".toList, "re".toList]
    pieces.flatten = sample.text ++ "more".toList ∧
      ∃ done, asyncReadRequestOp pieces false = some done ∧ done.ec = none ∧
        done.opts = sample.internal ++ [("host".toList, "a".toList)] ∧
        Reading pieces sample.text done.streambuf done.pieces ∧
        done.streambuf ++ done.pieces.flatten = "more".toList := by
  intro pieces
  have hpieces : pieces.flatten = sample.text ++ "more".toList := by decide
  have hsupported : sample.Supported := by decide
  obtain ⟨done, hop, -, -, -, hstored, -, -, -, -, hnone⟩ := asyncReadRequestOp_head sample "more".toList pieces false hpieces
  obtain ⟨hopts, hreading, hleft⟩ := hstored hsupported
  exact ⟨hpieces, done, hop, hnone.mpr (by decide), hopts, hreading, hleft⟩

/-- A version that is not supported leaves the header unread, a first `Host` without a value hides the second one, and a tab in front of the version is dropped. -/
theorem asyncReadRequestOp_stops_early :
    asyncReadRequestOp ["GET / HTTP/2.0\r\nHost: a\r\n\r\nmore".toList] false =
        some ⟨some .versionNotSupported,
          [(requestMethod, "GET".toList), (requestUri, "/".toList),
            (HttpOptions.httpVersion, "HTTP/2.0".toList)],
          "Host: a\r\n\r\nmore".toList, []⟩ ∧
      (asyncReadRequestOp ["GET / HTTP/1.1\r\nHost: \r\nHost: a\r\n\r\n".toList] false).map Completion.ec =
        some (some .headerMissingHost) ∧
      (asyncReadRequestOp ["GET / \tHTTP/1.1\r\nHost: a\r\n\r\n".toList] false).map (fun done => done.opts.find HttpOptions.httpVersion) =
        some "HTTP/1.1".toList := by decide

end RequestHead

end Avbot.Httpd
