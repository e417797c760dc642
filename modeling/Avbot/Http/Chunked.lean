import Avbot.Httpd.ReadRequest

/-!
# Reading the body of a response

`http_stream::read_some` without compression. With chunked transfer encoding the stream remembers how much of the current chunk is left; when nothing is, it skips a line end and reads the next size line. The bytes come from the buffer `m_response`, and then from the socket.
-/

namespace Avbot.Http

open List SegmentedInput
open Avbot.Httpd (cutLine cutLine_line eq_append_of_cutLine)

inductive StreamErrc where
  | eof
  | invalidChunkedEncoding
  deriving DecidableEq, Repr

/-! ### Hexadecimal numbers -/

def hexDigit (c : Char) : Option Nat :=
  if '0' ≤ c ∧ c ≤ '9' then some (c.toNat - '0'.toNat)
  else if 'a' ≤ c ∧ c ≤ 'f' then some (c.toNat - 'a'.toNat + 10)
  else if 'A' ≤ c ∧ c ≤ 'F' then some (c.toNat - 'A'.toNat + 10)
  else none

def isHexDigit (c : Char) : Bool := (hexDigit c).isSome

def hexValue (s : Str) : Nat := s.foldl (fun n c => 16 * n + (hexDigit c).getD 0) 0

/-- `ss << std::hex << s; ss >> size` for a `std::size_t`. -/
def hexSize (s : Str) : Nat :=
  let (negative, s) := match s.dropWhile Str.isSpace with
    | '-' :: s => (true, s)
    | '+' :: s => (false, s)
    | s => (false, s)
  let s := match s with
    | '0' :: 'x' :: s => s
    | '0' :: 'X' :: s => s
    | s => s
  let n := hexValue (s.takeWhile isHexDigit)
  if negative ∧ n < Str.sizeLimit then (Str.sizeLimit - n) % Str.sizeLimit else min n (Str.sizeLimit - 1)

example : hexSize "1A;x=1\r\n".toList = 26 ∧ hexSize "0xff".toList = 255 ∧ hexSize "-1".toList = 2 ^ 64 - 1 ∧
    hexSize "-10000000000000000".toList = 2 ^ 64 - 1 := by decide

/-! ### The stream -/

structure HttpStream where
  mIsChunked : Bool
  mSkipCrlf : Bool
  mIsChunkedEnd : Bool
  mKeepAlive : Bool
  mChunkedSize : Nat
  mContentLength : Int
  mBodySize : Int
  mResponse : Str
  sock : Pending Char
  /-- The peer closes the connection at the end. -/
  closed : Bool

structure ReadResult where
  bytes : Str
  bytesTransferred : Nat
  ec : Option StreamErrc
  deriving DecidableEq

namespace HttpStream

def content (s : HttpStream) : Str := s.mResponse ++ s.sock.content

/-- A read from the socket into a buffer of `n` bytes. Without an answer it waits for the peer. With an empty buffer there is nothing to wait for. -/
def sockRead (s : HttpStream) (n : Nat) : Option (Str × Option StreamErrc × HttpStream) :=
  match s.sock.read n with
  | some (bytes, sock) => some (bytes, none, { s with sock := sock })
  | none => if n = 0 then some ([], none, s) else if s.closed then some ([], some .eof, s) else none

def readSomeImpl (s : HttpStream) (n : Nat) : Option (Str × Option StreamErrc × HttpStream) :=
  if s.mResponse ≠ [] then some (s.mResponse.take n, none, { s with mResponse := s.mResponse.drop n }) else s.sockRead n

/-- The loop that fills `crlf`. Each read brings at least one of the bytes that the first argument counts. -/
def readCrlf : Nat → HttpStream → Str → Option (Str × Option StreamErrc × HttpStream)
  | 0, s, crlf => some (crlf, none, s)
  | n + 1, s, crlf =>
    if crlf.length = 2 then some (crlf, none, s)
    else
      match s.readSomeImpl (2 - crlf.length) with
      | none => none
      | some (bytes, some ec, s) => some (crlf ++ bytes, some ec, s)
      | some (bytes, none, s) => readCrlf n s (crlf ++ bytes)

/-- The loop that reads a size line. There are no more bytes in it than there are to come, which is what the first argument counts. -/
def readSizeLine : Nat → HttpStream → Str → Option (Str × Option StreamErrc × HttpStream)
  | 0, _, _ => none
  | n + 1, s, hexChunkedSize =>
    match s.readSomeImpl 1 with
    | none => none
    | some (_, some ec, s) => some (hexChunkedSize, some ec, s)
    | some (c, none, s) =>
      let hexChunkedSize := hexChunkedSize ++ c
      if Str.crlf <:+ hexChunkedSize then some (hexChunkedSize, none, s) else readSizeLine n s hexChunkedSize

def endErrc (s : HttpStream) : Option StreamErrc := if s.mKeepAlive then none else some .eof

inductive Prepared where
  | ready (s : HttpStream)
  | returned (result : ReadResult) (s : HttpStream)

def readSize (s : HttpStream) : Option Prepared :=
  match readSizeLine (s.content.length + 1) s [] with
  | none => none
  | some (_, some ec, s) => some (.returned ⟨[], 0, some ec⟩ s)
  | some (hexChunkedSize, none, s) => some (.ready { s with mChunkedSize := hexSize hexChunkedSize, mSkipCrlf := false })

def nextChunk (s : HttpStream) : Option Prepared :=
  if s.mSkipCrlf then s.readSize
  else
    match readCrlf 2 s [] with
    | none => none
    | some (_, some ec, s) => some (.returned ⟨[], 0, some ec⟩ s)
    | some (crlf, none, s) =>
      if s.mIsChunkedEnd then some (.returned ⟨[], 0, s.endErrc⟩ s)
      else if crlf ≠ Str.crlf then some (.returned ⟨[], crlf.length, some .invalidChunkedEncoding⟩ s)
      else s.readSize

def readChunk (s : HttpStream) (n : Nat) : Option (ReadResult × HttpStream) :=
  if s.mChunkedSize ≠ 0 then
    (s.readSomeImpl (min n s.mChunkedSize)).map fun (bytes, ec, s) =>
      (⟨bytes, bytes.length, ec⟩, { s with mChunkedSize := s.mChunkedSize - bytes.length })
  else some (⟨[], 0, s.endErrc⟩, { s with mIsChunkedEnd := true })

def readSome (s : HttpStream) (n : Nat) : Option (ReadResult × HttpStream) :=
  if s.mIsChunked then
    if s.mChunkedSize = 0 then
      match s.nextChunk with
      | none => none
      | some (.returned result s) => some (result, s)
      | some (.ready s) => s.readChunk n
    else s.readChunk n
  else if s.mKeepAlive ∧ s.mContentLength ≠ -1 ∧ s.mBodySize = s.mContentLength then some (⟨[], 0, none⟩, s)
  else
    (s.readSomeImpl n).map fun (bytes, ec, s) =>
      (⟨bytes, bytes.length, ec⟩, { s with mBodySize := s.mBodySize + bytes.length })

def reads (s : HttpStream) : List Nat → Option (List ReadResult × HttpStream)
  | [] => some ([], s)
  | n :: ns =>
    match s.readSome n with
    | none => none
    | some (result, s) => (reads s ns).map fun (results, s) => (result :: results, s)

end HttpStream

/-! ### A chunked body -/

structure IsExtension (ext : Str) : Prop where
  head : ∀ c ∈ ext.head?, c = ';' ∨ c = ' ' ∨ c = '\t'
  no_linefeed : '\n' ∉ ext

structure Chunk where
  size : Str
  ext : Str
  data : Str
  size_ne_nil : size ≠ []
  size_hex : ∀ c ∈ size, isHexDigit c = true
  size_value : hexValue size = data.length
  isExtension : IsExtension ext
  data_ne_nil : data ≠ []
  /-- The size of a chunk is a `std::size_t`. -/
  data_fits : data.length < Str.sizeLimit

structure LastChunk where
  size : Str
  ext : Str
  size_ne_nil : size ≠ []
  size_zero : ∀ c ∈ size, c = '0'
  isExtension : IsExtension ext

def Chunk.encode (c : Chunk) : Str := c.size ++ c.ext ++ Str.crlf ++ c.data ++ Str.crlf

def encodeBody (chunks : List Chunk) (last : LastChunk) : Str :=
  chunks.flatMap Chunk.encode ++ last.size ++ last.ext ++ Str.crlf ++ Str.crlf

def body (chunks : List Chunk) : Str := chunks.flatMap Chunk.data

/-! ### The size line -/

variable {c : Char} {size ext : Str}

theorem not_isSpace_of_isHexDigit (hc : isHexDigit c = true) : Str.isSpace c = false := by
  by_contra hspace
  rcases Str.isSpace_cases (by simpa using hspace) with rfl | rfl | rfl | rfl | rfl | rfl <;> exact absurd hc (by decide)

theorem ne_of_isHexDigit {d : Char} (hc : isHexDigit c = true) (hd : isHexDigit d = false) : c ≠ d := by
  rintro rfl
  exact absurd (hc.symm.trans hd) (by decide)

theorem hexSize_append {rest : Str} (hne : size ≠ []) (hhex : ∀ c ∈ size, isHexDigit c = true)
    (hrest : ∀ c ∈ rest.head?, isHexDigit c = false ∧ c ≠ 'x' ∧ c ≠ 'X') :
    hexSize (size ++ rest) = min (hexValue size) (Str.sizeLimit - 1) := by
  have htake : (size ++ rest).takeWhile isHexDigit = size := by
    rw [takeWhile_append_of_pos hhex]
    cases rest with
    | nil => simp
    | cons d rest => rw [takeWhile_cons_of_neg (by simp [(hrest d rfl).1]), append_nil]
  have hstart : ∀ d tail, size ++ rest = '0' :: d :: tail → d ≠ 'x' ∧ d ≠ 'X' := by
    intro d tail heq
    match size, hne with
    | [c], _ =>
      have htail : rest = d :: tail := (cons.inj heq).2
      exact (hrest d (by rw [htail]; rfl)).2
    | c :: c' :: size, _ =>
      have hd : isHexDigit d = true := by
        rw [← (cons.inj (cons.inj heq).2).1]
        exact hhex c' (by simp)
      exact ⟨ne_of_isHexDigit hd (by decide), ne_of_isHexDigit hd (by decide)⟩
  obtain ⟨c, text, htext⟩ : ∃ c text, size ++ rest = c :: text := by
    cases size with
    | nil => exact absurd rfl hne
    | cons c size => exact ⟨c, size ++ rest, rfl⟩
  have hc : isHexDigit c = true := by
    cases size with
    | nil => exact absurd rfl hne
    | cons d size =>
      rw [← (cons.inj htext).1]
      exact hhex d mem_cons_self
  rw [htext] at htake hstart ⊢
  rw [hexSize, dropWhile_cons_of_neg (by simp [not_isSpace_of_isHexDigit hc])]
  split
  rename_i negative digits hsign
  split at hsign
  case h_1 heq => exact absurd (cons.inj heq).1 (ne_of_isHexDigit hc (by decide))
  case h_2 heq => exact absurd (cons.inj heq).1 (ne_of_isHexDigit hc (by decide))
  case h_3 =>
    obtain ⟨rfl, rfl⟩ := Prod.mk.inj hsign
    have hdigits : (match c :: text with
        | '0' :: 'x' :: s => s
        | '0' :: 'X' :: s => s
        | s => s) = c :: text := by
      split
      case h_1 heq => exact absurd rfl (hstart _ _ heq).1
      case h_2 heq => exact absurd rfl (hstart _ _ heq).2
      case h_3 => rfl
    simp only [hdigits, htake, Bool.false_eq_true, false_and, if_false]

theorem hexSize_line (hne : size ≠ []) (hhex : ∀ c ∈ size, isHexDigit c = true) (hext : IsExtension ext) :
    hexSize (size ++ ext ++ Str.crlf) = min (hexValue size) (Str.sizeLimit - 1) := by
  rw [append_assoc]
  refine hexSize_append hne hhex ?_
  intro c hc
  cases ext with
  | nil =>
    obtain rfl : '\r' = c := by simpa [Str.crlf] using hc
    decide
  | cons d ext =>
    obtain rfl : d = c := by simpa using hc
    rcases hext.head d rfl with rfl | rfl | rfl <;> decide

theorem Chunk.hexSize_eq (c : Chunk) : hexSize (c.size ++ c.ext ++ Str.crlf) = c.data.length := by
  rw [hexSize_line c.size_ne_nil c.size_hex c.isExtension, c.size_value]
  have := c.data_fits
  omega

theorem LastChunk.size_hex (last : LastChunk) : ∀ c ∈ last.size, isHexDigit c = true := by
  intro c hc
  rw [last.size_zero c hc]
  decide

theorem LastChunk.hexSize_eq (last : LastChunk) : hexSize (last.size ++ last.ext ++ Str.crlf) = 0 := by
  have hvalue : hexValue last.size = 0 := by
    obtain ⟨n, hn⟩ : ∃ n, last.size = replicate n '0' := ⟨_, eq_replicate_of_mem last.size_zero⟩
    rw [hn, hexValue]
    clear hn
    induction n with
    | zero => rfl
    | succ n ih => exact ih
  rw [hexSize_line last.size_ne_nil last.size_hex last.isExtension, hvalue, Nat.zero_min]

theorem linefeed_not_mem_line (hhex : ∀ c ∈ size, isHexDigit c = true) (hext : IsExtension ext) :
    '\n' ∉ size ++ ext := by
  rw [mem_append, not_or]
  exact ⟨fun hmem => absurd (hhex _ hmem) (by decide), hext.no_linefeed⟩

namespace HttpStream

def moved (s : HttpStream) (mResponse : Str) (sock : Pending Char) : HttpStream :=
  { s with mResponse := mResponse, sock := sock }

variable {s : HttpStream} {n : Nat}

/-! ### Reading from the buffer and the socket -/

def pieces (s : HttpStream) : List Str := if s.mResponse = [] then s.sock.segs else s.mResponse :: s.sock.segs

theorem flatten_pieces (s : HttpStream) : s.pieces.flatten = s.content := by
  unfold pieces content
  split
  · rename_i hnil
    rw [hnil]
    rfl
  · rfl

variable {p rest acc content line d : Str} {c : Char} {last : LastChunk} {chunks : List Chunk}

theorem ne_nil_of_mem_pieces (hp : p ∈ s.pieces) : p ≠ [] := by
  unfold pieces at hp
  split at hp
  · exact s.sock.nonempty p hp
  · rcases mem_cons.mp hp with rfl | hp
    · assumption
    · exact s.sock.nonempty p hp

theorem readSomeImpl_piece {rest : List Str} (hpieces : s.pieces = p :: rest) (n : Nat) :
    ∃ r k, s.readSomeImpl n = some (p.take n, none, s.moved r k) ∧
      (s.moved r k).pieces = if p.length ≤ n then rest else p.drop n :: rest := by
  unfold pieces at hpieces
  unfold readSomeImpl
  by_cases hresponse : s.mResponse = []
  · rw [if_pos hresponse] at hpieces
    rw [if_neg (by simpa using hresponse)]
    obtain ⟨k, hread, hrest⟩ := Pending.read_cons hpieces n
    refine ⟨s.mResponse, k, by rw [sockRead, hread]; rfl, ?_⟩
    rw [← hrest]
    exact if_pos hresponse
  · rw [if_neg hresponse] at hpieces
    obtain ⟨rfl, rfl⟩ := cons.inj hpieces
    rw [if_pos hresponse]
    refine ⟨_, s.sock, rfl, ?_⟩
    unfold pieces
    by_cases hlong : s.mResponse.length ≤ n
    · rw [if_pos hlong]
      exact if_pos (drop_eq_nil_of_le hlong)
    · rw [if_neg hlong]
      exact if_neg (by simpa [moved] using hlong)

theorem readSomeImpl_no_piece (hpieces : s.pieces = []) (n : Nat) :
    s.readSomeImpl n = if n = 0 then some ([], none, s) else if s.closed then some ([], some .eof, s) else none := by
  unfold pieces at hpieces
  split at hpieces
  · rename_i hresponse
    rw [readSomeImpl, if_neg (by simpa using hresponse), sockRead, Pending.read_nil hpieces]
  · simp at hpieces

theorem readSomeImpl_dropped {rest : List Str} (hpieces : s.pieces = p :: rest) (n : Nat) :
    ∃ r k, s.readSomeImpl n = some (p.take n, none, s.moved r k) ∧
      (s.moved r k).pieces = dropped (p.take n).length s.pieces := by
  obtain ⟨r, k, hread, hrest⟩ := readSomeImpl_piece hpieces n
  have hleft : ∀ q ∈ rest, q ≠ [] := fun q hq =>
    ne_nil_of_mem_pieces (s := s) (by rw [hpieces]; exact mem_cons_of_mem p hq)
  refine ⟨r, k, hread, ?_⟩
  rw [hrest, hpieces, dropped_cons, length_take]
  by_cases hlong : p.length ≤ n
  · rw [if_pos hlong, if_neg (by omega), Nat.sub_eq_zero_of_le (by omega), dropped_zero hleft]
  · rw [if_neg hlong, if_pos (by omega), Nat.min_eq_left (by omega)]

theorem readSomeImpl_spec (hn : 0 < n) (hcontent : s.content ≠ []) :
    ∃ bytes r k, s.readSomeImpl n = some (bytes, none, s.moved r k) ∧ bytes ≠ [] ∧ bytes.length ≤ n ∧
      s.content = bytes ++ (s.moved r k).content ∧ (s.moved r k).pieces = dropped bytes.length s.pieces := by
  cases hpieces : s.pieces with
  | nil =>
    rw [← flatten_pieces, hpieces] at hcontent
    exact absurd rfl hcontent
  | cons p rest =>
    obtain ⟨r, k, hread, hdropped⟩ := readSomeImpl_dropped hpieces n
    have hne : p ≠ [] := ne_nil_of_mem_pieces (s := s) (by rw [hpieces]; exact mem_cons_self)
    refine ⟨p.take n, r, k, hread, ?_, length_take_le n p, ?_, hdropped.trans (by rw [hpieces])⟩
    · rw [ne_eq, take_eq_nil_iff, not_or]
      exact ⟨by omega, hne⟩
    · have hfront : p.take n <+: s.content := by
        rw [← flatten_pieces, hpieces, flatten_cons]
        exact ( take_prefix n p).trans (prefix_append p _)
      rw [← flatten_pieces (s.moved r k), hdropped, flatten_dropped, flatten_pieces]
      exact (prefix_iff_eq_append.mp hfront).symm

/-! ### Bytes and lines -/

theorem readSomeImpl_one (hcontent : s.content = c :: rest) :
    ∃ r k, s.readSomeImpl 1 = some ([c], none, s.moved r k) ∧ (s.moved r k).content = rest ∧
      (s.moved r k).pieces = dropped 1 s.pieces := by
  obtain ⟨bytes, r, k, hread, hne, hle, heq, hpieces⟩ := readSomeImpl_spec (s := s) Nat.one_pos (by simp [hcontent])
  obtain ⟨d, rfl⟩ : ∃ d, bytes = [d] :=
    length_eq_one_iff.mp (Nat.le_antisymm hle (length_pos_iff.mpr hne))
  obtain ⟨rfl, hrest⟩ := cons.inj (hcontent.symm.trans heq)
  exact ⟨r, k, hread, hrest.symm, hpieces⟩

theorem readCrlf_spec {d : Char} (hcontent : s.content = c :: d :: rest) :
    ∃ r k, readCrlf 2 s [] = some ([c, d], none, s.moved r k) ∧ (s.moved r k).content = rest ∧
      (s.moved r k).pieces = dropped 2 s.pieces := by
  obtain ⟨bytes, r, k, hread, hne, hle, heq, hpieces⟩ := readSomeImpl_spec (s := s) Nat.two_pos (by simp [hcontent])
  have hfirst : readCrlf 2 s [] = readCrlf 1 (s.moved r k) bytes := by
    rw [readCrlf, if_neg (by simp), length_nil, hread]
    rfl
  rw [hfirst]
  match bytes, hne, hle with
  | [c'], _, _ =>
    obtain ⟨rfl, hrest⟩ := cons.inj (hcontent.symm.trans heq)
    obtain ⟨r', k', hread', hrest', hpieces'⟩ := readSomeImpl_one hrest.symm
    refine ⟨r', k', ?_, hrest', ?_⟩
    · rw [readCrlf, if_neg (by simp)]
      show (match (s.moved r k).readSomeImpl 1 with
        | none => none
        | some (bytes, some ec, s) => some ([c] ++ bytes, some ec, s)
        | some (bytes, none, s) => readCrlf 0 s ([c] ++ bytes)) = _
      rw [hread']
      rfl
    · rw [hpieces] at hpieces'
      exact hpieces'.trans (dropped_add 1 1 s.pieces).symm
  | [c', d'], _, _ =>
    obtain ⟨rfl, htail⟩ := cons.inj (hcontent.symm.trans heq)
    obtain ⟨rfl, hrest⟩ := cons.inj htail
    exact ⟨r, k, by rw [readCrlf, if_pos (show [c, d].length = 2 from rfl)], hrest.symm, hpieces⟩

theorem readSizeLine_cons (n : Nat) (acc : Str) (hcontent : s.content = c :: rest) :
    ∃ r k, (s.moved r k).content = rest ∧ (s.moved r k).pieces = dropped 1 s.pieces ∧
      readSizeLine (n + 1) s acc =
        if Str.crlf <:+ acc ++ [c] then some (acc ++ [c], none, s.moved r k) else readSizeLine n (s.moved r k) (acc ++ [c]) := by
  obtain ⟨r, k, hread, hrest, hpieces⟩ := readSomeImpl_one hcontent
  refine ⟨r, k, hrest, hpieces, ?_⟩
  rw [readSizeLine, hread]

def Uncut (acc content : Str) : Prop := ¬ (acc.getLast? = some '\r' ∧ content.head? = some '\n')

theorem uncut_nil (content : Str) : Uncut [] content := by
  rintro ⟨hlast, -⟩
  cases hlast

theorem uncut_concat (hend : ¬ (c = '\r' ∧ content.head? = some '\n')) : Uncut (acc ++ [c]) content := by
  rintro ⟨hlast, hhead⟩
  rw [getLast?_concat] at hlast
  exact hend ⟨Option.some.inj hlast, hhead⟩

theorem Uncut.not_crlf_suffix (hacc : Uncut acc (c :: content)) : ¬ Str.crlf <:+ acc ++ [c] := by
  rintro ⟨front, hfront⟩
  have hsplit : front ++ ['\r'] ++ ['\n'] = acc ++ [c] := by simpa [Str.crlf] using hfront
  obtain ⟨rfl, hc⟩ := append_inj' hsplit rfl
  refine hacc ⟨getLast?_concat, ?_⟩
  rw [head?_cons, ← (cons.inj hc).1]

theorem readSizeLine_spec (acc : Str) (hacc : Uncut acc s.content)
    (hcut : cutLine s.content = some (line, rest)) (hn : line.length + 2 ≤ n) :
    ∃ r k, readSizeLine n s acc = some (acc ++ line ++ Str.crlf, none, s.moved r k) ∧ (s.moved r k).content = rest ∧
      (s.moved r k).pieces = dropped (line.length + 2) s.pieces := by
  induction line generalizing s acc n with
  | nil =>
    have hcontent := eq_append_of_cutLine hcut
    obtain ⟨n, rfl⟩ : ∃ m, n = m + 1 + 1 := ⟨n - 2, by rw [length_nil] at hn; omega⟩
    obtain ⟨r, k, hrest, hpieces, hread⟩ := readSizeLine_cons (n + 1) acc hcontent
    obtain ⟨r', k', hrest', hpieces', hread'⟩ := readSizeLine_cons n (acc ++ ['\r']) hrest
    rw [hcontent] at hacc
    refine ⟨r', k', ?_, hrest', ?_⟩
    · rw [hread, if_neg hacc.not_crlf_suffix, hread', if_pos ⟨acc, by simp [Str.crlf]⟩]
      simp [Str.crlf, moved]
    · rw [hpieces] at hpieces'
      exact hpieces'.trans (dropped_add 1 1 s.pieces).symm
  | cons c line ih =>
    have hcontent : s.content = c :: (line ++ '\r' :: '\n' :: rest) := eq_append_of_cutLine hcut
    obtain ⟨n, rfl⟩ : ∃ m, n = m + 1 := ⟨n - 1, by rw [length_cons] at hn; omega⟩
    obtain ⟨r, k, hrest, hpieces, hread⟩ := readSizeLine_cons n acc hcontent
    rw [hcontent, cutLine] at hcut
    rw [hcontent] at hacc
    split at hcut
    case isTrue => simp at hcut
    case isFalse hend =>
      obtain ⟨cut, hcut', heq⟩ := Option.map_eq_some_iff.mp hcut
      obtain ⟨⟨-, hline⟩, hafter⟩ : (c = c ∧ cut.1 = line) ∧ cut.2 = rest := by simpa using heq
      have hless : line.length + 2 ≤ n := by
        rw [length_cons] at hn
        omega
      rw [← hrest] at hcut' hend
      obtain ⟨r', k', hread', hrest', hpieces'⟩ :=
        ih (acc ++ [c]) (uncut_concat hend) (hcut'.trans (by rw [← hline, ← hafter])) hless
      refine ⟨r', k', ?_, hrest', ?_⟩
      · rw [hread, if_neg hacc.not_crlf_suffix, hread', append_assoc acc [c]]
        rfl
      · rw [hpieces, ← dropped_add, Nat.add_comm 1] at hpieces'
        rw [length_cons, Nat.add_right_comm]
        exact hpieces'

/-! ### From chunk to chunk -/

theorem encodeBody_cons (c : Chunk) (chunks : List Chunk) (last : LastChunk) :
    encodeBody (c :: chunks) last = c.size ++ c.ext ++ (Str.crlf ++ (c.data ++ (Str.crlf ++ encodeBody chunks last))) := by
  simp [encodeBody, Chunk.encode]

theorem encodeBody_nil (last : LastChunk) : encodeBody [] last = last.size ++ last.ext ++ (Str.crlf ++ Str.crlf) := by
  simp [encodeBody]

/-- In the middle of a body: `d` is left of the current chunk, and these chunks come after it. -/
structure Midway (last : LastChunk) (s : HttpStream) (d : Str) (chunks : List Chunk) : Prop where
  chunked : s.mIsChunked = true
  not_ended : s.mIsChunkedEnd = false
  size : s.mChunkedSize = d.length
  content : s.content = d ++ ((if s.mSkipCrlf then [] else Str.crlf) ++ encodeBody chunks last)
  skip : s.mSkipCrlf = true → d = []

theorem readSize_spec (hcut : cutLine s.content = some (line, rest)) :
    ∃ r k, s.readSize = some (.ready { s.moved r k with mChunkedSize := hexSize (line ++ Str.crlf), mSkipCrlf := false }) ∧
      (s.moved r k).content = rest ∧ (s.moved r k).pieces = dropped (line.length + 2) s.pieces := by
  have henough : line.length + 2 ≤ s.content.length + 1 := by
    rw [eq_append_of_cutLine hcut]
    simp only [length_append, length_cons]
    omega
  obtain ⟨r, k, hread, hrest, hpieces⟩ := readSizeLine_spec [] (uncut_nil s.content) hcut henough
  exact ⟨r, k, by rw [readSize, hread]; rfl, hrest, hpieces⟩

theorem nextChunk_spec {after : Str} (hopen : s.mIsChunkedEnd = false)
    (hcontent : s.content = (if s.mSkipCrlf then [] else Str.crlf) ++ after) (hcut : cutLine after = some (line, rest)) :
    ∃ r k, s.nextChunk = some (.ready { s.moved r k with mChunkedSize := hexSize (line ++ Str.crlf), mSkipCrlf := false }) ∧
      (s.moved r k).content = rest ∧
      (s.moved r k).pieces = dropped ((if s.mSkipCrlf then 0 else 2) + (line.length + 2)) s.pieces := by
  cases hskip : s.mSkipCrlf with
  | true =>
    rw [hskip, if_pos rfl, nil_append] at hcontent
    obtain ⟨r, k, hread, hrest, hpieces⟩ := readSize_spec (s := s) (by rw [hcontent]; exact hcut)
    exact ⟨r, k, by rw [nextChunk, if_pos hskip, hread], hrest, by rw [if_pos rfl, Nat.zero_add, hpieces]⟩
  | false =>
    rw [hskip, if_neg (by simp)] at hcontent
    obtain ⟨r, k, hread, hmid, hpieces⟩ := readCrlf_spec hcontent
    obtain ⟨r', k', hread', hrest, hpieces'⟩ := readSize_spec (s := s.moved r k) (by rw [hmid]; exact hcut)
    refine ⟨r', k', ?_, hrest, ?_⟩
    · have hnot : ¬ (s.moved r k).mIsChunkedEnd = true := by simp [moved, hopen]
      rw [nextChunk, if_neg (by simp [hskip]), hread]
      simp only [hnot]
      rw [if_neg (by decide), hread']
      rfl
    · rw [hpieces, ← dropped_add] at hpieces'
      rw [if_neg (by simp)]
      exact hpieces'

theorem readChunk_spec (hmid : Midway last s d chunks) (hd : d ≠ []) (hn : 0 < n) :
    ∃ bytes s' d', s.readChunk n = some (⟨bytes, bytes.length, none⟩, s') ∧ bytes ≠ [] ∧ d = bytes ++ d' ∧
      Midway last s' d' chunks ∧ s'.mKeepAlive = s.mKeepAlive := by
  obtain ⟨hchunked, hopen, hsize, hcontent, hskip⟩ := hmid
  have hpos : 0 < d.length := length_pos_iff.mpr hd
  obtain ⟨bytes, r, k, hread, hne, hle, heq, -⟩ := readSomeImpl_spec (s := s) (n := min n s.mChunkedSize)
    (by rw [hsize]; omega) (by simp [hcontent, hd])
  rw [hsize] at hle
  obtain ⟨d', rfl⟩ : bytes <+: d :=
    prefix_of_prefix_length_le ⟨_, (hcontent.symm.trans heq).symm⟩ (prefix_append d _) (by omega)
  refine ⟨bytes, { s.moved r k with mChunkedSize := s.mChunkedSize - bytes.length }, d', ?_, hne, rfl, ?_, rfl⟩
  · rw [readChunk, if_pos (by rw [hsize]; omega), hread]
    rfl
  · refine ⟨hchunked, hopen, ?_, ?_, fun h => absurd (hskip h) hd⟩
    · rw [hsize, length_append, Nat.add_sub_cancel_left]
    · rw [append_assoc] at hcontent
      exact append_cancel_left (heq.symm.trans hcontent)

theorem readSome_data (hmid : Midway last s d chunks) (hn : 0 < n) (hleft : d ++ body chunks ≠ []) :
    ∃ bytes s' d' chunks', s.readSome n = some (⟨bytes, bytes.length, none⟩, s') ∧ bytes ≠ [] ∧
      d ++ body chunks = bytes ++ (d' ++ body chunks') ∧ Midway last s' d' chunks' ∧ s'.mKeepAlive = s.mKeepAlive := by
  by_cases hd : d = []
  · cases chunks with
    | nil => simp [hd, body] at hleft
    | cons c chunks =>
      have hcontent := hmid.content
      rw [hd, nil_append, encodeBody_cons] at hcontent
      obtain ⟨r, k, hnext, hrest, -⟩ := nextChunk_spec hmid.not_ended hcontent (cutLine_line (linefeed_not_mem_line c.size_hex c.isExtension) _)
      rw [c.hexSize_eq] at hnext
      have hinside : Midway last { s.moved r k with mChunkedSize := c.data.length, mSkipCrlf := false } c.data chunks :=
        ⟨hmid.chunked, hmid.not_ended, rfl, hrest, by simp⟩
      obtain ⟨bytes, s', d', hread, hne, hdata, hmid', hkeep⟩ := readChunk_spec hinside c.data_ne_nil hn
      refine ⟨bytes, s', d', chunks, ?_, hne, ?_, hmid', hkeep⟩
      · rw [readSome, if_pos hmid.chunked, if_pos (by rw [hmid.size, hd]; rfl), hnext]
        exact hread
      · rw [hd, nil_append, body, flatMap_cons, hdata, append_assoc]
        rfl
  · obtain ⟨bytes, s', d', hread, hne, rfl, hmid', hkeep⟩ := readChunk_spec hmid hd hn
    refine ⟨bytes, s', d', chunks, ?_, hne, append_assoc _ _ _, hmid', hkeep⟩
    rw [readSome, if_pos hmid.chunked, if_neg (by rw [hmid.size]; simpa using hd)]
    exact hread

theorem readSome_end (hmid : Midway last s [] []) (n : Nat) : ∃ s', s.readSome n = some (⟨[], 0, s.endErrc⟩, s') := by
  have hcontent := hmid.content
  rw [nil_append, encodeBody_nil] at hcontent
  obtain ⟨r, k, hnext, -⟩ := nextChunk_spec hmid.not_ended hcontent (cutLine_line (linefeed_not_mem_line last.size_hex last.isExtension) _)
  rw [last.hexSize_eq] at hnext
  refine ⟨{ s.moved r k with mChunkedSize := 0, mSkipCrlf := false, mIsChunkedEnd := true }, ?_⟩
  rw [readSome, if_pos hmid.chunked, if_pos (show s.mChunkedSize = 0 from hmid.size), hnext]
  rfl

theorem reads_midway (hmid : Midway last s d chunks) (sizes : Nat → Nat) (hsizes : ∀ i, 0 < sizes i) :
    ∃ k results s', s.reads ((range k).map sizes) = some (results, s') ∧
      (∀ result ∈ results, result.ec = none ∧ result.bytes ≠ [] ∧ result.bytesTransferred = result.bytes.length) ∧
      (results.map ReadResult.bytes).flatten = d ++ body chunks ∧
      ∃ s'', s'.readSome (sizes k) = some (⟨[], 0, s.endErrc⟩, s'') := by
  -- every read that gives something leaves less to be read
  induction hlength : (d ++ body chunks).length using Nat.strong_induction_on generalizing s d chunks sizes with
  | _ length ih =>
    by_cases hleft : d ++ body chunks = []
    · obtain ⟨rfl, hbody⟩ := append_eq_nil_iff.mp hleft
      obtain rfl : chunks = [] := by
        cases chunks with
        | nil => rfl
        | cons c chunks => simp [body, c.data_ne_nil] at hbody
      exact ⟨0, [], s, rfl, by simp, by simp [body], readSome_end hmid _⟩
    · obtain ⟨bytes, s₁, d₁, chunks₁, hread, hne, hsplit, hmid₁, hkeep⟩ := readSome_data hmid (hsizes 0) hleft
      have hless : (d₁ ++ body chunks₁).length < length := by
        have hpos := length_pos_iff.mpr hne
        have hsum := congrArg List.length hsplit
        rw [@List.length_append _ bytes, hlength] at hsum
        omega
      obtain ⟨k, results, s', hreads, hresults, hbytes, hend⟩ :=
        ih _ hless hmid₁ (fun i => sizes (i + 1)) (fun i => hsizes (i + 1)) rfl
      refine ⟨k + 1, ⟨bytes, bytes.length, none⟩ :: results, s', ?_, ?_, ?_, ?_⟩
      · rw [range_succ_eq_map, map_cons, map_map, reads, hread]
        show (s₁.reads ((range k).map fun i => sizes (i + 1))).map _ = _
        rw [hreads]
        rfl
      · rw [forall_mem_cons]
        exact ⟨⟨rfl, hne, rfl⟩, hresults⟩
      · rw [map_cons, flatten_cons, hbytes, hsplit]
      · rw [endErrc, hkeep] at hend
        exact hend

structure HeaderReceived (s : HttpStream) : Prop where
  chunked : s.mIsChunked = true
  skip : s.mSkipCrlf = true
  not_ended : s.mIsChunkedEnd = false
  size : s.mChunkedSize = 0

/-- However the body is divided, the reads give it without an error and then nothing; only the last of them may report the end of the stream. -/
theorem reads_body (hheader : HeaderReceived s) (chunks : List Chunk) (last : LastChunk)
    (hcontent : s.content = encodeBody chunks last) (sizes : Nat → Nat) (hsizes : ∀ i, 0 < sizes i) :
    ∃ k results s', s.reads ((range k).map sizes) = some (results, s') ∧
      (∀ result ∈ results, result.ec = none ∧ result.bytes ≠ [] ∧ result.bytesTransferred = result.bytes.length) ∧
      (results.map ReadResult.bytes).flatten = body chunks ∧
      ∃ s'', s'.readSome (sizes k) = some (⟨[], 0, if s.mKeepAlive then none else some .eof⟩, s'') := by
  have hmid : Midway last s [] chunks :=
    ⟨hheader.chunked, hheader.not_ended, hheader.size, by rw [hheader.skip, if_pos rfl]; exact hcontent, fun _ => rfl⟩
  exact reads_midway hmid sizes hsizes

def sampleChunks : List Chunk :=
  [⟨"3".toList, ";x".toList, "abc".toList, by decide, by decide, by decide, ⟨by decide, by decide⟩, by decide, by decide⟩,
    ⟨"01".toList, [], "d".toList, by decide, by decide, by decide, ⟨by decide, by decide⟩, by decide, by decide⟩]

def sampleLast : LastChunk := ⟨"0".toList, [], by decide, by decide, ⟨by decide, by decide⟩⟩

def sampleStream : HttpStream where
  mIsChunked := true
  mSkipCrlf := true
  mIsChunkedEnd := false
  mKeepAlive := false
  mChunkedSize := 0
  mContentLength := -1
  mBodySize := 0
  mResponse := "3;x\r\na".toList
  sock := ⟨["bc\r\n01\r".toList, "\nd\r\n0\r\n\r\n".toList], by decide⟩
  closed := true

example : (sampleStream.reads [2, 2, 2, 2]).map (fun r => r.1.map fun result => (result.bytes, result.ec)) =
    some [("a".toList, none), ("bc".toList, none), ("d".toList, none), ([], some .eof)] := by decide +kernel

theorem reads_body_of_sampleStream :
    body sampleChunks = "abcd".toList ∧
      ∃ k results s', sampleStream.reads ((range k).map fun _ => 2) = some (results, s') ∧
        (∀ result ∈ results, result.ec = none ∧ result.bytes ≠ [] ∧ result.bytesTransferred = result.bytes.length) ∧
        (results.map ReadResult.bytes).flatten = body sampleChunks ∧
        ∃ s'', s'.readSome 2 = some (⟨[], 0, some .eof⟩, s'') :=
  ⟨by decide, reads_body ⟨rfl, rfl, rfl, rfl⟩ sampleChunks sampleLast (by decide) (fun _ => 2) (fun _ => by decide)⟩

end HttpStream

end Avbot.Http
