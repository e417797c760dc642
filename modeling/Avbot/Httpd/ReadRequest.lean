import Avbot.Httpd.Options
import Avbot.Lib.Pattern
import Avbot.Lib.SegmentedInput

/-!
# Reading a request

`avhttpd::async_read_request` reads line after line with `async_read_until`. A request that ends early runs into the checks for `Host` and `Content-Length` before the error of the read is reported.
-/

namespace Avbot.Httpd

open List Option Pattern SegmentedInput
open Str (crlf)

/-- `avhttpd::errc::errc_t` as far as a request can cause it, and the end of the stream. -/
inductive RequestErrc where
  | eof
  | malformedRequestLine
  | headerMissingHost
  | postWithoutContent
  | malformedRequestHeaders
  | versionNotSupported
  deriving DecidableEq, Repr

def cutLine : Str → Option (Str × Str)
  | [] => none
  | c :: s =>
    if c = '\r' ∧ s.head? = some '\n' then some ([], s.tail)
    else (cutLine s).map fun cut => (c :: cut.1, cut.2)

/-- `async_read_until(stream, streambuf, "\r\n")`, and the line taken from the buffer: the line, the buffer and the pieces still to come. -/
def readLine (buf : Str) (pieces : List Str) : Option (Str × Str × List Str) :=
  (readUntil (fun b => (cutLine b).isSome) buf pieces).bind fun read =>
    (cutLine read.1).map fun cut => (cut.1, cut.2, read.2)

def afterHeader : Str → Option Str
  | [] => none
  | c :: s => if c = '\r' ∧ s.take 3 = ['\n', '\r', '\n'] then some (s.drop 3) else afterHeader s

/-- The expression `([a-zA-Z]+)[ ]+([^ ]+)([ ]+(.*))?` with its third group. -/
def requestLineRegex : Regex Char :=
  ⟨[.some Char.isAlpha, .some (· == ' '), .some (· != ' '), .some (· == ' '), .many fun _ => true], [(0, 1), (2, 1), (3, 2)]⟩

def shortRequestLineRegex : Regex Char :=
  ⟨[.some Char.isAlpha, .some (· == ' '), .some (· != ' ')], [(0, 1), (2, 1)]⟩

/-- The expression `^([^:]*): *(.*)$`. -/
def headerLineRegex : Regex Char :=
  ⟨[.many (· != ':'), .one (· == ':'), .many (· == ' '), .many fun _ => true], [(0, 1), (3, 1)]⟩

def requestOpts (what : List Str) (version : Str) : Options :=
  [(HttpOptions.requestMethod, Str.toUpper (what.getD 1 [])), (HttpOptions.requestUri, what.getD 2 []),
    (HttpOptions.httpVersion, version)]

/-- What `async_read_request_op` leaves behind when it calls its handler, also after an error. -/
structure Completion where
  ec : Option RequestErrc
  opts : Options
  streambuf : Str
  pieces : List Str
  deriving DecidableEq

def storeRequestLine (line : Str) : Options × Option RequestErrc :=
  match requestLineRegex.full line with
  | some what =>
    let version := Str.toUpper (Str.trimLeft (what.getD 3 []))
    (requestOpts what version,
      if version ≠ "HTTP/1.1".toList ∧ version ≠ "HTTP/1.0".toList then some .versionNotSupported else none)
  | none =>
    match shortRequestLineRegex.full line with
    | some what => (requestOpts what "HTTP/1.0".toList, none)
    | none => ([], some .malformedRequestLine)

/-- The checks after the header; `ec` is the error of the last read. -/
def completionErrc (opts : Options) (ec : Option RequestErrc) : Option RequestErrc :=
  if opts.find HttpOptions.httpVersion = "HTTP/1.1".toList ∧ opts.find HttpOptions.host = [] then some .headerMissingHost
  else if opts.find HttpOptions.requestMethod = "POST".toList ∧ opts.find HttpOptions.contentLength = [] then
    some .postWithoutContent
  else ec

def storeHeaders (closed : Bool) : Nat → Options → Str → List Str → Option Completion
  | 0, _, _, _ => none
  | n + 1, opts, buf, pieces =>
    match readLine buf pieces with
    | none => if closed then some ⟨completionErrc opts (some .eof), opts, buf ++ pieces.flatten, []⟩ else none
    | some (line, buf, pieces) =>
      if line = [] then some ⟨completionErrc opts none, opts, buf, pieces⟩
      else
        match headerLineRegex.full line with
        | none => some ⟨some .malformedRequestHeaders, opts, buf, pieces⟩
        | some what => storeHeaders closed n (opts.insert (what.getD 1 []) (what.getD 2 [])) buf pieces

/-- `async_read_request` with an empty buffer, on a peer that sends these pieces and then closes the connection or not. -/
def asyncReadRequestOp (pieces : List Str) (closed : Bool) : Option Completion :=
  match readLine [] pieces with
  | none => if closed then some ⟨some .eof, [], pieces.flatten, []⟩ else none
  | some (line, buf, pieces) =>
    match storeRequestLine line with
    | (opts, some e) => some ⟨some e, opts, buf, pieces⟩
    | (opts, none) => storeHeaders closed (buf.length + pieces.flatten.length + 1) opts buf pieces

inductive ReadResult where
  | waiting
  | failed (e : RequestErrc)
  | accepted (opts : Options) (streambuf : Str) (pieces : List Str)
  deriving DecidableEq

def Completion.result (done : Completion) : ReadResult :=
  match done.ec with
  | some e => .failed e
  | none => .accepted done.opts done.streambuf done.pieces

def asyncReadRequest (pieces : List Str) (closed : Bool) : ReadResult :=
  ((asyncReadRequestOp pieces closed).map Completion.result).getD .waiting

example : asyncReadRequest ["GET  / http/1.1\r".toList, "\nHost:  a\r\n\r\nmore".toList] false =
    .accepted [("_request_method".toList, "GET".toList), ("_request_uri".toList, "/".toList),
      ("_http_version".toList, "HTTP/1.1".toList), ("Host".toList, "a".toList)] "more".toList [] := by decide +kernel

variable {s t line rest buf buf' : Str} {pieces pieces' : List Str} {closed : Bool}

theorem cutLine_cases {c : Char} (hcut : cutLine (c :: s) = some (line, rest)) :
    (line = [] ∧ c = '\r' ∧ s = '\n' :: rest) ∨
      (¬ (c = '\r' ∧ s.head? = some '\n') ∧ ∃ line', line = c :: line' ∧ cutLine s = some (line', rest)) := by
  rw [cutLine] at hcut
  split at hcut
  case isTrue hend =>
    obtain ⟨rfl, rfl⟩ : [] = line ∧ s.tail = rest := by simpa using hcut
    exact .inl ⟨rfl, hend.1, (cons_head?_tail hend.2).symm⟩
  case isFalse hend =>
    obtain ⟨⟨line', rest'⟩, hcut', heq⟩ := map_eq_some_iff.mp hcut
    grind

theorem eq_append_of_cutLine (hcut : cutLine s = some (line, rest)) : s = line ++ '\r' :: '\n' :: rest := by
  induction s generalizing line with
  | nil => simp [cutLine] at hcut
  | cons c s ih =>
    rcases cutLine_cases hcut with ⟨rfl, rfl, rfl⟩ | ⟨-, line', rfl, hcut'⟩
    · rfl
    · rw [ih hcut', cons_append]

theorem cutLine_append (hcut : cutLine s = some (line, rest)) (t : Str) : cutLine (s ++ t) = some (line, rest ++ t) := by
  induction s generalizing line with
  | nil => simp [cutLine] at hcut
  | cons c s ih =>
    rcases cutLine_cases hcut with ⟨rfl, rfl, rfl⟩ | ⟨hgoes, line', rfl, hcut'⟩
    · rfl
    · have hmore : ¬ (c = '\r' ∧ (s ++ t).head? = some '\n') := by
        cases s with
        | nil => simp [cutLine] at hcut'
        | cons d s => exact hgoes
      grind [cutLine]

theorem isSome_cutLine_append (l m : Str) (hl : (cutLine l).isSome = true) : (cutLine (l ++ m)).isSome = true := by
  obtain ⟨cut, hcut⟩ := Option.isSome_iff_exists.mp hl
  rw [cutLine_append hcut m]
  rfl

theorem afterHeader_of_cutLine (hcut : cutLine s = some (line, rest)) :
    afterHeader s = afterHeader ('\r' :: '\n' :: rest) := by
  induction s generalizing line with
  | nil => simp [cutLine] at hcut
  | cons c s ih =>
    rcases cutLine_cases hcut with ⟨rfl, rfl, rfl⟩ | ⟨hgoes, line', rfl, hcut'⟩
    · rfl
    · have hne : ¬ (c = '\r' ∧ s.take 3 = ['\n', '\r', '\n']) := by
        rintro ⟨rfl, htake⟩
        cases s with
        | nil => simp at htake
        | cons d s => exact hgoes ⟨rfl, congrArg some (List.cons.inj htake).1⟩
      rw [afterHeader, if_neg hne, ih hcut']

theorem afterHeader_empty_line (rest : Str) : afterHeader ('\r' :: '\n' :: '\r' :: '\n' :: rest) = some rest := by
  simp [afterHeader]

theorem afterHeader_line (hcut : cutLine s = some (line, rest)) (hline : line ≠ []) :
    afterHeader ('\r' :: '\n' :: s) = afterHeader s := by
  have hne : ¬ ('\r' = '\r' ∧ ('\n' :: s).take 3 = ['\n', '\r', '\n']) := by
    rintro ⟨_, htake⟩
    obtain ⟨c, d, s, rfl⟩ : ∃ c d s', s = c :: d :: s' := by
      match s with
      | [] => simp at htake
      | [c] => simp at htake
      | c :: d :: s => exact ⟨c, d, s, rfl⟩
    grind [cutLine]
  grind [afterHeader]

/-- The pieces that have been read after `consumed` has been taken off them: what is left in the buffer, and no piece more than needed. -/
structure Reading (pieces : List Str) (consumed buf : Str) (pieces' : List Str) : Prop where
  read : ∃ pre, pieces = pre ++ pieces' ∧ pre.flatten = consumed ++ buf ∧
    (pre = [] ∨ pre.dropLast.flatten.length < consumed.length)

theorem readLine_eq_some (hread : readLine buf pieces = some (line, buf', pieces')) :
    ∃ got, readUntil (fun b => (cutLine b).isSome) buf pieces = some (got, pieces') ∧ cutLine got = some (line, buf') := by
  obtain ⟨⟨got, rest⟩, huntil, hmap⟩ := bind_eq_some_iff.mp hread
  obtain ⟨⟨line', buf''⟩, hcut, heq⟩ := map_eq_some_iff.mp hmap
  grind

theorem cutLine_of_readLine (hread : readLine buf pieces = some (line, buf', pieces')) :
    cutLine (buf ++ pieces.flatten) = some (line, buf' ++ pieces'.flatten) := by
  obtain ⟨got, huntil, hcut⟩ := readLine_eq_some hread
  rw [← append_flatten_of_readUntil huntil]
  exact cutLine_append hcut _

theorem cutLine_isSome (front rest : Str) : (cutLine (front ++ '\r' :: '\n' :: rest)).isSome := by
  induction front with
  | nil => simp [cutLine]
  | cons c front ih =>
    grind [cutLine]

theorem cutLine_line {line : Str} (hline : '\n' ∉ line) (rest : Str) :
    cutLine (line ++ '\r' :: '\n' :: rest) = some (line, rest) := by
  induction line with
  | nil => simp [cutLine]
  | cons c line ih =>
    have hrest : '\n' ∉ line := fun hmem => hline (mem_cons_of_mem c hmem)
    have hend : ¬ (c = '\r' ∧ (line ++ '\r' :: '\n' :: rest).head? = some '\n') := by
      rintro ⟨-, hhead⟩
      cases line with
      | nil => simp at hhead
      | cons d line =>
        grind
    grind [cutLine]

theorem cutLine_isSome_of_prefix {front : Str} (hcut : cutLine s = some (line, rest)) (hfront : front <+: s)
    (hlong : line.length + 2 ≤ front.length) : (cutLine front).isSome := by
  have hline : line ++ crlf <+: s := ⟨rest, by rw [eq_append_of_cutLine hcut]; simp [crlf]⟩
  obtain ⟨more, rfl⟩ := prefix_of_prefix_length_le hline hfront (by simpa [crlf] using hlong)
  have hend : line ++ crlf ++ more = line ++ '\r' :: '\n' :: more := by simp [crlf]
  rw [hend]
  exact cutLine_isSome line more

variable {all : List Str} {consumed : Str} {n : Nat} {opts opts' : Options}

section

variable (hreading : Reading all consumed buf pieces)

include hreading

theorem reading_readLine (hread : readLine buf pieces = some (line, buf', pieces')) :
    Reading all (consumed ++ line ++ crlf) buf' pieces' := by
  obtain ⟨pre, rfl, hpre, hleast⟩ := hreading
  obtain ⟨got, huntil, hcut⟩ := readLine_eq_some hread
  obtain ⟨_, more, rfl, hgot⟩ := readUntil_eq_some huntil
  refine ⟨pre ++ more, by simp, ?_, ?_⟩
  · rw [flatten_append, hpre, append_assoc, ← hgot, eq_append_of_cutLine hcut]
    simp [crlf]
  · cases more using List.reverseRecOn with
    | nil =>
      grind
    | append_singleton more last =>
      right
      rw [← append_assoc, dropLast_concat, flatten_append, hpre]
      by_contra hshort
      -- the line was complete before the last piece was read
      have hfront : buf ++ more.flatten <+: got := by
        grind
      have hdone := cutLine_isSome_of_prefix hcut hfront (by
        simp only [length_append, crlf, length_cons, length_nil] at hshort ⊢
        omega)
      have hlonger := (rest_longest_of_readUntil huntil (append_assoc more [last] pieces') hdone).length_le
      grind

theorem Reading.flatten_eq : all.flatten = consumed ++ (buf ++ pieces.flatten) := by
  obtain ⟨pre, rfl, hpre, _⟩ := hreading
  rw [flatten_append, hpre, append_assoc]

theorem Reading.overshoot_eq (hpos : 0 < consumed.length) : overshoot consumed.length all = buf.length := by
  obtain ⟨pre, rfl, hpre, hleast⟩ := hreading
  have hlength : pre.flatten.length = consumed.length + buf.length := by rw [hpre, length_append]
  have hne : pre ≠ [] := by
    grind
  grind [overshoot_append]

end

theorem completionErrc_eof_ne (opts : Options) : completionErrc opts (some .eof) ≠ none := by
  rw [completionErrc]
  split_ifs <;> exact some_ne_none _

theorem storeHeaders_accepted {done : Completion} (hreading : Reading all consumed buf pieces)
    (hdone : storeHeaders closed n opts buf pieces = some done) (hec : done.ec = none) :
    afterHeader ('\r' :: '\n' :: (buf ++ pieces.flatten)) = some (done.streambuf ++ done.pieces.flatten) ∧
      ∃ header, Reading all (consumed ++ header) done.streambuf done.pieces := by
  induction n generalizing opts buf pieces consumed with
  | zero => simp [storeHeaders] at hdone
  | succ n ih =>
    rw [storeHeaders] at hdone
    split at hdone
    case h_1 =>
      split at hdone
      · obtain rfl := some.inj hdone
        exact absurd hec (completionErrc_eof_ne opts)
      · exact absurd hdone (by simp)
    case h_2 line buf₁ pieces₁ hread =>
      have hcut := cutLine_of_readLine hread
      have hnext := reading_readLine hreading hread
      rw [append_assoc] at hnext
      split at hdone
      case isTrue hline =>
        obtain rfl := some.inj hdone
        subst hline
        rw [eq_append_of_cutLine hcut]
        exact ⟨afterHeader_empty_line _, _, hnext⟩
      case isFalse hline =>
        split at hdone
        · obtain rfl := some.inj hdone
          exact absurd hec (some_ne_none _)
        · obtain ⟨hafter, header, hheader⟩ := ih hnext hdone
          refine ⟨?_, _, by rwa [append_assoc] at hheader⟩
          rw [afterHeader_line hcut hline, afterHeader_of_cutLine hcut, hafter]

/-- What is left is what follows the first empty line, and the buffer holds what the piece with the end of the header has of it. -/
theorem asyncReadRequest_accepted (haccept : asyncReadRequest pieces closed = .accepted opts buf' pieces') :
    afterHeader pieces.flatten = some (buf' ++ pieces'.flatten) ∧
      overshoot (pieces.flatten.length - (buf' ++ pieces'.flatten).length) pieces = buf'.length := by
  obtain ⟨done, hop, hec, rfl, rfl⟩ : ∃ done, asyncReadRequestOp pieces closed = some done ∧ done.ec = none ∧
      done.streambuf = buf' ∧ done.pieces = pieces' := by
    rw [asyncReadRequest] at haccept
    cases hop : asyncReadRequestOp pieces closed with
    | none => simp [hop] at haccept
    | some done =>
      rw [hop, map_some, getD_some, Completion.result] at haccept
      split at haccept <;> simp_all
  rw [asyncReadRequestOp] at hop
  split at hop
  case h_1 =>
    split at hop
    · obtain rfl := some.inj hop
      exact absurd hec (some_ne_none _)
    · exact absurd hop (by simp)
  case h_2 line buf₁ pieces₁ hread =>
    split at hop
    case h_1 =>
      obtain rfl := some.inj hop
      exact absurd hec (some_ne_none _)
    case h_2 opts₁ _ =>
      have hstart : Reading pieces [] [] pieces := ⟨[], rfl, rfl, .inl rfl⟩
      obtain ⟨hafter, header, hheader⟩ := storeHeaders_accepted (reading_readLine hstart hread) hop hec
      refine ⟨(afterHeader_of_cutLine (cutLine_of_readLine hread)).trans hafter, ?_⟩
      rw [← hheader.overshoot_eq (by simp only [crlf, length_append, length_cons]; omega)]
      conv_lhs => rw [hheader.flatten_eq, length_append, Nat.add_sub_cancel]

end Avbot.Httpd
