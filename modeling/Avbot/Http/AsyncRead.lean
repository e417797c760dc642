import Avbot.Http.Chunked
import Avbot.Lib.EventMachine

/-!
# Reading a chunked body asynchronously

`http_stream::async_read_some` does in its handlers what `read_some` does in one go. Only the line end behind a chunk is read differently: with an empty buffer it is one read of two bytes, which the handler takes for complete.
-/

namespace Avbot.Http

open List Option SegmentedInput Nat
open Avbot.Httpd (cutLine cutLine_append cutLine_isSome_of_prefix eq_append_of_cutLine)

namespace HttpStream

def handleAsyncRead (s : HttpStream) (n : Nat) (ec : Option StreamErrc) (bytes : Str) : Option (ReadResult × HttpStream) :=
  if ec = none ∨ s.mResponse ≠ [] then
    let s := { s with mResponse := s.mResponse ++ bytes }
    (s.readSomeImpl (min n s.mChunkedSize)).map fun (bytes, err, s) =>
      (⟨bytes, bytes.length, err⟩, { s with mChunkedSize := s.mChunkedSize - bytes.length })
  else some (⟨[], bytes.length, ec⟩, s)

def asyncReadData (s : HttpStream) (n : Nat) : Option (ReadResult × HttpStream) :=
  match s.sockRead (if s.mResponse ≠ [] then 0 else min n s.mChunkedSize) with
  | none => none
  | some (bytes, ec, s) => s.handleAsyncRead n ec bytes

def takeSizeLine : Str → Str → Str × Str
  | [], hexChunkedSize => (hexChunkedSize, [])
  | c :: response, hexChunkedSize =>
    let hexChunkedSize := hexChunkedSize ++ [c]
    if Str.crlf <:+ hexChunkedSize then (hexChunkedSize, response) else takeSizeLine response hexChunkedSize

def handleChunkedSize (s : HttpStream) (n : Nat) : Option (ReadResult × HttpStream) :=
  let (hexChunkedSize, response) := takeSizeLine s.mResponse []
  let s := { s with mResponse := response, mChunkedSize := hexSize hexChunkedSize, mSkipCrlf := false }
  if s.mChunkedSize ≠ 0 then s.asyncReadData n else some (⟨[], 0, s.endErrc⟩, { s with mIsChunkedEnd := true })

def asyncReadSize (s : HttpStream) (n : Nat) : Option (ReadResult × HttpStream) :=
  match s.sock.readUntil (fun b => (cutLine b).isSome) s.mResponse with
  | some (response, sock) => (s.moved response sock).handleChunkedSize n
  | none => if s.closed then some (⟨[], 0, some .eof⟩, s.moved s.content .nil) else none

def handleSkipCrlf (s : HttpStream) (n : Nat) (crlf : Str) (ec : Option StreamErrc) (bytesTransferred : Nat) :
    Option (ReadResult × HttpStream) :=
  match ec with
  | some ec => some (⟨[], bytesTransferred, some ec⟩, s)
  | none =>
    if s.mIsChunkedEnd then some (⟨[], bytesTransferred, s.endErrc⟩, s)
    else if crlf ≠ Str.crlf then some (⟨[], bytesTransferred, some .invalidChunkedEncoding⟩, s)
    else s.asyncReadSize n

/-- The array `crlf`, which has been cleared, with these bytes at its front. -/
def crlfArray (bytes : Str) : Str := (bytes ++ ['\x00', '\x00']).take 2

def asyncReadCrlf (s : HttpStream) (n : Nat) (crlf : Str) : Option (ReadResult × HttpStream) :=
  match (s.moved [] s.sock).sockRead (2 - crlf.length) with
  | none => none
  | some (bytes, ec, s) => s.handleSkipCrlf n (crlfArray (crlf ++ bytes)) ec bytes.length

def asyncSkipCrlf (s : HttpStream) (n : Nat) : Option (ReadResult × HttpStream) :=
  match s.mResponse with
  | c :: d :: response => (s.moved response s.sock).handleSkipCrlf n [c, d] none 0
  | crlf => s.asyncReadCrlf n crlf

def handleRead (s : HttpStream) (n : Nat) (ec : Option StreamErrc) (bytes : Str) : Option (ReadResult × HttpStream) :=
  if ec = none ∨ s.mResponse ≠ [] then
    let s := { s with mResponse := s.mResponse ++ bytes }
    if bytes = [] ∧ s.mResponse = [] then some (⟨[], bytes.length, ec⟩, s)
    else
      (s.readSomeImpl n).map fun (bytes, _, s) =>
        (⟨bytes, bytes.length, ec⟩, { s with mBodySize := s.mBodySize + bytes.length })
  else some (⟨[], bytes.length, ec⟩, s)

/-- `async_read_some` into a buffer of `n` bytes, and what its handler is called with. -/
def asyncReadSome (s : HttpStream) (n : Nat) : Option (ReadResult × HttpStream) :=
  if s.mIsChunked then
    if s.mChunkedSize = 0 then
      if s.mSkipCrlf then s.asyncReadSize n else s.asyncSkipCrlf n
    else s.asyncReadData n
  else if s.mResponse ≠ [] then s.readSome n
  else if s.mKeepAlive ∧ s.mContentLength ≠ -1 ∧ s.mBodySize = s.mContentLength then some (⟨[], 0, none⟩, s)
  else
    match s.sockRead (min (n : Int) (if s.mContentLength = -1 then 1024 else s.mContentLength)).toNat with
    | none => none
    | some (bytes, ec, s) => s.handleRead n ec bytes

end HttpStream

/-! ### Calls one after the other -/

inductive Ending where
  /-- All the calls have been made. -/
  | unfinished
  /-- The last call waits for the peer. -/
  | waiting
  | endOfBody (ec : Option StreamErrc)
  | failed (ec : StreamErrc)
  deriving DecidableEq

def chain (read : HttpStream → Nat → Option (ReadResult × HttpStream)) (s : HttpStream) : List Nat → Str × Ending
  | [] => ([], .unfinished)
  | n :: ns =>
    match read s n with
    | none => ([], .waiting)
    | some (result, s) =>
      if s.mIsChunkedEnd then (result.bytes, .endOfBody result.ec)
      else
        match result.ec with
        | some ec => (result.bytes, .failed ec)
        | none => (result.bytes ++ (chain read s ns).1, (chain read s ns).2)

def goesOn (read : HttpStream → Nat → Option (ReadResult × HttpStream)) (s : HttpStream) (n : Nat) : Option HttpStream :=
  match read s n with
  | none => none
  | some (result, s) => if s.mIsChunkedEnd ∨ result.ec ≠ none then none else some s

namespace HttpStream

/-- The line end behind a chunk is next, the buffer is empty and the socket has one byte to give. -/
def CutsLineEnd (s : HttpStream) : Prop :=
  s.mChunkedSize = 0 ∧ s.mSkipCrlf = false ∧ s.mResponse = [] ∧ s.sock.segs.head?.map List.length = some 1 ∧
    (s.content.length = 1 ∨ Str.crlf <+: s.content)

instance : DecidablePred CutsLineEnd := fun _ => inferInstanceAs (Decidable (_ ∧ _))

variable {s t : HttpStream} {n : Nat}

/-! ### The data of a chunk -/

theorem sockRead_zero (s : HttpStream) : s.sockRead 0 = some ([], none, s) := by
  unfold sockRead
  cases hsegs : s.sock.segs with
  | nil => rw [Pending.read_nil hsegs]; rfl
  | cons seg segs =>
    obtain ⟨k, hread, hk⟩ := Pending.read_cons hsegs 0
    have hlong : ¬ seg.length ≤ 0 := by
      have hne := s.sock.nonempty seg (by rw [hsegs]; exact mem_cons_self)
      exact not_le.mpr (length_pos_iff.mpr hne)
    rw [if_neg hlong, drop_zero, ← hsegs] at hk
    obtain rfl : k = s.sock := Pending.ext hk
    rw [hread]
    rfl

theorem sockRead_cases (s : HttpStream) (n : Nat) :
    s.sockRead n = none ∨ s.sockRead n = some ([], some .eof, s) ∨
      ∃ bytes k, s.sockRead n = some (bytes, none, s.moved s.mResponse k) ∧ bytes.length ≤ n ∧ (bytes = [] → n = 0) := by
  unfold sockRead
  cases hsegs : s.sock.segs with
  | nil =>
    rw [Pending.read_nil hsegs]
    by_cases hn : n = 0
    · exact .inr (.inr ⟨[], s.sock, if_pos hn, zero_le n, fun _ => hn⟩)
    · cases hclosed : s.closed with
      | false => exact .inl (if_neg hn)
      | true => exact .inr (.inl (if_neg hn))
  | cons seg segs =>
    obtain ⟨k, hread, -⟩ := Pending.read_cons hsegs n
    have hne : seg ≠ [] := s.sock.nonempty seg (by rw [hsegs]; exact mem_cons_self)
    rw [hread]
    refine .inr (.inr ⟨_, k, rfl, ?_, ?_⟩)
    · rw [length_take]
      omega
    · intro hnil
      exact (take_eq_nil_iff.mp hnil).resolve_right hne

variable {bytes line more rest after crlf : Str} {c d : Char} {m : Nat}
    {read : HttpStream → Nat → Option (ReadResult × HttpStream)}

theorem readSomeImpl_buffered (hresponse : s.mResponse = []) (hle : bytes.length ≤ n) (hnil : bytes = [] → n = 0) :
    (s.moved bytes s.sock).readSomeImpl n = some (bytes, none, s) := by
  have hself : s.moved [] s.sock = s := by
    rw [← hresponse]
    rfl
  by_cases hbytes : bytes = []
  · rw [hbytes, hself, hnil hbytes, readSomeImpl, if_neg (by simpa using hresponse), sockRead_zero]
  · refine (if_pos hbytes).trans ?_
    show some (bytes.take n, none, s.moved (bytes.drop n) s.sock) = _
    rw [take_of_length_le hle, drop_eq_nil_of_le hle, hself]

theorem asyncReadData_eq (hsize : s.mChunkedSize ≠ 0) (n : Nat) : s.asyncReadData n = s.readChunk n := by
  rw [asyncReadData, readChunk, if_pos hsize]
  by_cases hresponse : s.mResponse = []
  · rw [if_neg (by simpa using hresponse), readSomeImpl, if_neg (by simpa using hresponse)]
    rcases sockRead_cases s (min n s.mChunkedSize) with hread | hread | ⟨bytes, k, hread, hle, hnil⟩ <;> rw [hread]
    · rfl
    · show s.handleAsyncRead n (some .eof) [] = _
      rw [handleAsyncRead, if_neg (by simp [hresponse])]
      rfl
    · show (s.moved s.mResponse k).handleAsyncRead n none bytes = _
      have hback := readSomeImpl_buffered (s := s.moved s.mResponse k) hresponse hle hnil
      have hbuffer : { s.moved s.mResponse k with mResponse := s.mResponse ++ bytes } = s.moved bytes k := by
        rw [hresponse]
        rfl
      rw [handleAsyncRead, if_pos (.inl rfl)]
      show (({ s.moved s.mResponse k with mResponse := s.mResponse ++ bytes } : HttpStream).readSomeImpl _).map _ = _
      rw [hbuffer]
      exact congrArg (Option.map _) hback
  · rw [if_pos hresponse, sockRead_zero]
    show s.handleAsyncRead n none [] = _
    rw [handleAsyncRead, if_pos (.inl rfl)]
    simp only [append_nil]

/-! ### The size line -/

theorem takeSizeLine_spec {response hex : Str} (huncut : Uncut hex response)
    (hcut : cutLine response = some (line, more)) : takeSizeLine response hex = (hex ++ line ++ Str.crlf, more) := by
  induction response generalizing hex line with
  | nil => simp [cutLine] at hcut
  | cons c response ih =>
    rw [takeSizeLine, if_neg huncut.not_crlf_suffix]
    rw [cutLine] at hcut
    split at hcut
    case isTrue hend =>
      obtain ⟨rfl, rfl⟩ : [] = line ∧ response.tail = more := by simpa using hcut
      obtain ⟨rfl, hhead⟩ := hend
      obtain ⟨response, rfl⟩ : ∃ rest, response = '\n' :: rest := ⟨_, (cons_head?_tail hhead).symm⟩
      rw [takeSizeLine, if_pos ⟨hex, by simp [Str.crlf]⟩]
      simp [Str.crlf]
    case isFalse hend =>
      obtain ⟨⟨line', more'⟩, hcut', heq⟩ := map_eq_some_iff.mp hcut
      obtain ⟨rfl, rfl⟩ := Prod.mk.inj heq
      rw [ih (uncut_concat hend) hcut', append_assoc hex [c]]
      rfl

def sized (s : HttpStream) (hexChunkedSize : Str) : HttpStream :=
  { s with mChunkedSize := hexSize hexChunkedSize, mSkipCrlf := false }

theorem handleChunkedSize_eq (hcut : cutLine s.mResponse = some (line, more)) (n : Nat) :
    s.handleChunkedSize n = ((s.moved more s.sock).sized (line ++ Str.crlf)).readChunk n := by
  rw [handleChunkedSize, takeSizeLine_spec (uncut_nil _) hcut]
  show (if hexSize (line ++ Str.crlf) ≠ 0 then ((s.moved more s.sock).sized (line ++ Str.crlf)).asyncReadData n else _) = _
  by_cases hsize : hexSize (line ++ Str.crlf) = 0
  · rw [if_neg (by simpa using hsize), readChunk, if_neg (by simpa [sized] using hsize)]
    rfl
  · rw [if_pos hsize, asyncReadData_eq hsize]

theorem asyncReadSize_spec (hcut : cutLine s.content = some (line, rest)) (n : Nat) :
    ∃ r k, s.asyncReadSize n = ((s.moved r k).sized (line ++ Str.crlf)).readChunk n ∧
      (s.moved r k).pieces = dropped (line.length + 2) s.pieces := by
  obtain ⟨got, k, hread⟩ := Pending.readUntil_isSome (fun b => (cutLine b).isSome) s.mResponse s.sock (by
    show (cutLine s.content).isSome = true
    rw [hcut]
    rfl)
  obtain ⟨hdone, hsplit⟩ := Pending.readUntil_spec hread
  obtain ⟨⟨line', more⟩, hgot⟩ := isSome_iff_exists.mp hdone
  obtain ⟨rfl, rfl⟩ : line' = line ∧ more ++ k.content = rest := by
    have hwhole := cutLine_append hgot k.content
    rw [← hsplit] at hwhole
    simpa using hwhole.symm.trans hcut
  obtain ⟨pre, hpieces, rfl, hlast⟩ := readUntil_least (Pending.readUntil_segs hread) Httpd.isSome_cutLine_append rfl
  refine ⟨more, k, ?_, ?_⟩
  · rw [asyncReadSize, hread]
    exact handleChunkedSize_eq hgot n
  · have hflat : pre.flatten = (line' ++ Str.crlf) ++ more := by
      rw [eq_append_of_cutLine hgot]
      simp [Str.crlf]
    have hlength : (line' ++ Str.crlf).length = line'.length + 2 := length_append
    have hshort : pre.dropLast.flatten.length < line'.length + 2 := by
      by_contra hlong
      have hfront : pre.dropLast.flatten <+: pre.flatten := ( dropLast_prefix pre).flatten
      have hsome := cutLine_isSome_of_prefix hgot hfront (by omega)
      rw [hlast] at hsome
      cases hsome
    have henough : line'.length + 2 ≤ pre.flatten.length := by
      rw [hflat, length_append]
      omega
    rw [show s.pieces = pre ++ k.segs from hpieces, dropped_append k.nonempty (by omega) henough hshort, hflat, ← hlength,
      drop_left]
    rfl

theorem asyncReadSize_dry (hcut : cutLine s.content = none) (n : Nat) :
    s.asyncReadSize n = if s.closed then some (⟨[], 0, some .eof⟩, s.moved s.content .nil) else none := by
  rw [asyncReadSize]
  cases hread : s.sock.readUntil (fun b => (cutLine b).isSome) s.mResponse with
  | none => rfl
  | some read =>
    obtain ⟨hdone, heq⟩ := Pending.readUntil_spec hread
    obtain ⟨cut, hsome⟩ := isSome_iff_exists.mp hdone
    have hmore := cutLine_append hsome read.2.content
    rw [← heq] at hmore
    exact absurd (hcut.symm.trans hmore) (by simp)

/-! ### Call by call -/

structure Alongside (s t : HttpStream) : Prop where
  chunked : s.mIsChunked = true
  moved : ∃ r k, t = s.moved r k
  pieces : t.pieces = s.pieces

theorem Alongside.content_eq (h : Alongside s t) : t.content = s.content := by
  rw [← flatten_pieces, ← flatten_pieces, h.pieces]

inductive SameRead : Option (ReadResult × HttpStream) → Option (ReadResult × HttpStream) → Prop where
  | waits : SameRead none none
  | fails {bytes : Str} {m m' : Nat} {ec : StreamErrc} {s t : HttpStream} (hended : t.mIsChunkedEnd = s.mIsChunkedEnd) :
      SameRead (some (⟨bytes, m, some ec⟩, s)) (some (⟨bytes, m', some ec⟩, t))
  | reads {bytes : Str} {m m' : Nat} {s t : HttpStream} (h : Alongside s t) :
      SameRead (some (⟨bytes, m, none⟩, s)) (some (⟨bytes, m', none⟩, t))

theorem readChunk_eq_readSome (hchunked : s.mIsChunked = true) (hsize : s.mChunkedSize ≠ 0) : s.readChunk n = s.readSome n := by
  rw [readSome, if_pos hchunked, if_neg hsize]

theorem sameRead_readChunk (h : Alongside s t) (n : Nat) : SameRead (s.readChunk n) (t.readChunk n) := by
  obtain ⟨hchunked, ⟨r, k, rfl⟩, hpieces⟩ := h
  by_cases hsize : s.mChunkedSize = 0
  · rw [readChunk, readChunk, if_neg (by simpa using hsize), if_neg (by simpa [moved] using hsize)]
    show SameRead (some (⟨[], 0, s.endErrc⟩, _)) (some (⟨[], 0, s.endErrc⟩, _))
    cases s.endErrc with
    | none => exact .reads ⟨hchunked, ⟨r, k, rfl⟩, hpieces⟩
    | some ec => exact .fails rfl
  · rw [readChunk, readChunk, if_pos hsize, if_pos (show (s.moved r k).mChunkedSize ≠ 0 from hsize)]
    show SameRead ((s.readSomeImpl (min n s.mChunkedSize)).map _) (((s.moved r k).readSomeImpl (min n s.mChunkedSize)).map _)
    cases hfirst : s.pieces with
    | nil =>
      rw [readSomeImpl_no_piece hfirst, readSomeImpl_no_piece (hpieces.trans hfirst)]
      show SameRead _ (Option.map _ (if _ then _ else if s.closed then _ else none))
      by_cases hn : min n s.mChunkedSize = 0
      · rw [if_pos hn, if_pos hn]
        exact .reads ⟨hchunked, ⟨r, k, rfl⟩, hpieces⟩
      · rw [if_neg hn, if_neg hn]
        cases s.closed with
        | false => exact .waits
        | true => exact .fails rfl
    | cons p rest =>
      obtain ⟨r₁, k₁, hread₁, hrest₁⟩ := readSomeImpl_piece hfirst (min n s.mChunkedSize)
      obtain ⟨r₂, k₂, hread₂, hrest₂⟩ := readSomeImpl_piece (hpieces.trans hfirst) (min n s.mChunkedSize)
      rw [hread₁, hread₂]
      exact .reads ⟨hchunked, ⟨r₂, k₂, rfl⟩, hrest₂.trans hrest₁.symm⟩

def finish (prepared : Option Prepared) (n : Nat) : Option (ReadResult × HttpStream) :=
  match prepared with
  | none => none
  | some (.returned result s) => some (result, s)
  | some (.ready s) => s.readChunk n

theorem pieces_eq_nil (hcontent : s.content = []) : s.pieces = [] := by
  rw [← flatten_pieces, flatten_eq_nil_iff] at hcontent
  exact eq_nil_iff_forall_not_mem.mpr fun p hp => ne_nil_of_mem_pieces hp (hcontent p hp)

theorem readSizeLine_dry (acc : Str) (huncut : Uncut acc s.content) (hcut : cutLine s.content = none)
    (hn : s.content.length < n) :
    ∃ hex r k, readSizeLine n s acc = if s.closed then some (hex, some .eof, s.moved r k) else none := by
  induction hcontent : s.content generalizing s acc n with
  | nil =>
    obtain ⟨n, rfl⟩ : ∃ m, n = m + 1 := ⟨n - 1, by omega⟩
    refine ⟨acc, s.mResponse, s.sock, ?_⟩
    rw [readSizeLine, readSomeImpl_no_piece (pieces_eq_nil hcontent), if_neg Nat.one_ne_zero]
    cases s.closed <;> rfl
  | cons c rest ih =>
    obtain ⟨n, rfl⟩ : ∃ m, n = m + 1 := ⟨n - 1, by omega⟩
    obtain ⟨r, k, hrest, -, hread⟩ := readSizeLine_cons n acc hcontent
    rw [hcontent, cutLine] at hcut
    rw [hcontent] at huncut hn
    split at hcut
    case isTrue => cases hcut
    case isFalse hend =>
      rw [← hrest] at hend hcut
      obtain ⟨hex, r', k', heof⟩ := ih (acc ++ [c]) (uncut_concat hend) (map_eq_none_iff.mp hcut)
        (by rw [hrest]; exact lt_of_succ_lt_succ hn) hrest
      refine ⟨hex, r', k', ?_⟩
      rw [hread, if_neg huncut.not_crlf_suffix, heof]
      rfl

theorem finish_readSize_dry (hcut : cutLine s.content = none) (n : Nat) :
    ∃ r k, finish s.readSize n = if s.closed then some (⟨[], 0, some .eof⟩, s.moved r k) else none := by
  obtain ⟨hex, r, k, hread⟩ := readSizeLine_dry [] (uncut_nil s.content) hcut (lt_succ_self _)
  refine ⟨r, k, ?_⟩
  rw [readSize, hread]
  cases s.closed <;> rfl

theorem finish_readSize_spec (hcut : cutLine s.content = some (line, rest)) (n : Nat) :
    ∃ r k, finish s.readSize n = ((s.moved r k).sized (line ++ Str.crlf)).readChunk n ∧
      (s.moved r k).pieces = dropped (line.length + 2) s.pieces := by
  obtain ⟨r, k, hread, -, hpieces⟩ := readSize_spec hcut
  exact ⟨r, k, by rw [hread]; rfl, hpieces⟩

theorem sameRead_size (h : Alongside s t) (n : Nat) : SameRead (finish s.readSize n) (t.asyncReadSize n) := by
  obtain ⟨hchunked, ⟨r, k, rfl⟩, hpieces⟩ := h
  have hcontent : (s.moved r k).content = s.content := Alongside.content_eq ⟨hchunked, ⟨r, k, rfl⟩, hpieces⟩
  cases hcut : cutLine s.content with
  | none =>
    obtain ⟨r', k', hread⟩ := finish_readSize_dry hcut n
    rw [asyncReadSize_dry (hcontent.symm ▸ hcut), hread]
    show SameRead _ (if s.closed then _ else none)
    cases s.closed with
    | false => exact .waits
    | true => exact .fails rfl
  | some cut =>
    obtain ⟨r₁, k₁, hread₁, hpieces₁⟩ := finish_readSize_spec hcut n
    obtain ⟨r₂, k₂, hread₂, hpieces₂⟩ := asyncReadSize_spec (hcontent.symm ▸ hcut) n
    rw [hread₁, hread₂]
    refine sameRead_readChunk (s := (s.moved r₁ k₁).sized (cut.1 ++ Str.crlf)) ⟨hchunked, ⟨r₂, k₂, rfl⟩, ?_⟩ n
    exact hpieces₂.trans ((congrArg _ hpieces).trans hpieces₁.symm)

/-! ### The line end behind a chunk -/

theorem readCrlf_dry (hshort : s.content.length < 2) :
    ∃ crlf r k, readCrlf 2 s [] = if s.closed then some (crlf, some .eof, s.moved r k) else none := by
  cases hcontent : s.content with
  | nil =>
    refine ⟨[], s.mResponse, s.sock, ?_⟩
    rw [readCrlf, if_neg (by simp), readSomeImpl_no_piece (pieces_eq_nil hcontent), if_neg (by simp)]
    cases s.closed <;> rfl
  | cons c rest =>
    obtain rfl : rest = [] := by
      rw [hcontent, length_cons] at hshort
      exact length_eq_zero_iff.mp (by omega)
    obtain ⟨bytes, r, k, hread, hne, -, heq, -⟩ := readSomeImpl_spec (s := s) Nat.two_pos (by simp [hcontent])
    obtain ⟨rfl, hrest⟩ : bytes = [c] ∧ (s.moved r k).content = [] := by
      cases bytes with
      | nil => exact absurd rfl hne
      | cons b bytes =>
        obtain ⟨rfl, htail⟩ := cons.inj (hcontent.symm.trans heq)
        obtain ⟨rfl, hrest⟩ := append_eq_nil_iff.mp htail.symm
        exact ⟨rfl, hrest⟩
    refine ⟨[c], r, k, ?_⟩
    rw [readCrlf, if_neg (by simp), length_nil, hread]
    show readCrlf 1 (s.moved r k) [c] = _
    rw [readCrlf, if_neg (by simp), readSomeImpl_no_piece (pieces_eq_nil hrest), if_neg (by simp)]
    rw [show (s.moved r k).closed = s.closed from rfl]
    cases s.closed <;> rfl

theorem finish_nextChunk_dry (hshort : s.content.length < 2) (hskip : s.mSkipCrlf = false) (n : Nat) :
    ∃ r k, finish s.nextChunk n = if s.closed then some (⟨[], 0, some .eof⟩, s.moved r k) else none := by
  obtain ⟨crlf, r, k, hread⟩ := readCrlf_dry hshort
  refine ⟨r, k, ?_⟩
  rw [nextChunk, if_neg (by simp [hskip]), hread]
  cases s.closed <;> rfl

def LoneByte (s : HttpStream) : Prop := s.mResponse = [] ∧ s.sock.segs.head?.map List.length = some 1

theorem LoneByte.content_pos (hlone : s.LoneByte) : 0 < s.content.length := by
  obtain ⟨p, hhead, hone⟩ := map_eq_some_iff.mp hlone.2
  obtain ⟨rest, hsegs⟩ := head?_eq_some_iff.mp hhead
  rw [content, Pending.content, hsegs, flatten_cons, length_append, length_append]
  omega

theorem sockRead_eq (hresponse : s.mResponse = []) (n : Nat) : s.sockRead n = s.readSomeImpl n :=
  (if_neg (by simpa using hresponse)).symm

theorem moved_nil_eq (hresponse : s.mResponse = []) : s.moved [] s.sock = s := by
  rw [← hresponse]
  rfl

theorem asyncReadCrlf_of_read {ec : Option StreamErrc} {s' : HttpStream} (n : Nat) (crlf : Str)
    (hread : (s.moved [] s.sock).readSomeImpl (2 - crlf.length) = some (bytes, ec, s')) :
    s.asyncReadCrlf n crlf = s'.handleSkipCrlf n (crlfArray (crlf ++ bytes)) ec bytes.length := by
  rw [asyncReadCrlf, sockRead_eq rfl, hread]

theorem asyncSkipCrlf_spec (hcontent : s.content = c :: d :: after) (hlone : ¬ s.LoneByte) (n : Nat) :
    ∃ r k m, s.asyncSkipCrlf n = (s.moved r k).handleSkipCrlf n [c, d] none m ∧ (s.moved r k).pieces = dropped 2 s.pieces := by
  match hresponse : s.mResponse with
  | [] =>
    have hpieces : s.pieces = s.sock.segs := if_pos hresponse
    have hskip : s.asyncSkipCrlf n = s.asyncReadCrlf n [] := by rw [asyncSkipCrlf, hresponse]
    cases hsegs : s.sock.segs with
    | nil =>
      rw [← flatten_pieces, hpieces, hsegs] at hcontent
      cases hcontent
    | cons p rest =>
      obtain ⟨p, rfl⟩ : ∃ p', p = c :: d :: p' := by
        have hne := s.sock.nonempty p (by rw [hsegs]; exact mem_cons_self)
        have hone : p.length ≠ 1 := fun hp => hlone ⟨hresponse, by rw [hsegs, head?_cons, map_some, hp]⟩
        rw [← flatten_pieces, hpieces, hsegs, flatten_cons] at hcontent
        match p, hne, hone with
        | [a], _, hone => exact absurd rfl hone
        | a :: b :: p', _, _ =>
          obtain ⟨rfl, htail⟩ := cons.inj hcontent
          exact ⟨p', by rw [(cons.inj htail).1]⟩
      obtain ⟨r, k, hread, hdropped⟩ := readSomeImpl_dropped (hpieces.trans hsegs) 2
      rw [← moved_nil_eq hresponse] at hread
      exact ⟨r, k, 2, hskip.trans (asyncReadCrlf_of_read n [] hread), hdropped⟩
  | [b] =>
    have hskip : s.asyncSkipCrlf n = s.asyncReadCrlf n [b] := by rw [asyncSkipCrlf, hresponse]
    rw [content, hresponse, singleton_append] at hcontent
    obtain ⟨rfl, hsock⟩ := cons.inj hcontent
    obtain ⟨r, k, hread, -, hdropped⟩ := readSomeImpl_one (s := s.moved [] s.sock) hsock
    refine ⟨r, k, 1, hskip.trans (asyncReadCrlf_of_read n [b] hread), hdropped.trans ?_⟩
    rw [show s.pieces = [b] :: s.sock.segs by rw [pieces, hresponse, if_neg (by simp)], dropped_cons]
    rfl
  | b :: b' :: response =>
    have hskip : s.asyncSkipCrlf n = (s.moved response s.sock).handleSkipCrlf n [b, b'] none 0 := by
      rw [asyncSkipCrlf, hresponse]
    rw [content, hresponse] at hcontent
    obtain ⟨rfl, htail⟩ := cons.inj hcontent
    obtain ⟨rfl, -⟩ := cons.inj htail
    refine ⟨response, s.sock, 0, hskip, ?_⟩
    have hpieces : s.pieces = [b :: b' :: response] ++ s.sock.segs := by
      rw [pieces, hresponse, if_neg (by simp)]
      rfl
    rw [hpieces, dropped_append s.sock.nonempty Nat.two_pos (by simp) (by simp)]
    rw [flatten_singleton]
    rfl

theorem asyncSkipCrlf_lone (hlone : s.LoneByte) (hended : s.mIsChunkedEnd = false) (n : Nat) :
    ∃ r k, s.asyncSkipCrlf n = some (⟨[], 1, some .invalidChunkedEncoding⟩, s.moved r k) := by
  obtain ⟨hresponse, hfirst⟩ := hlone
  obtain ⟨p, hhead, hone⟩ := map_eq_some_iff.mp hfirst
  obtain ⟨c, rfl⟩ := length_eq_one_iff.mp hone
  obtain ⟨rest, hsegs⟩ := head?_eq_some_iff.mp hhead
  have hpieces : s.pieces = [c] :: rest := (if_pos hresponse).trans hsegs
  obtain ⟨r, k, hread, -⟩ := readSomeImpl_dropped hpieces 2
  rw [← moved_nil_eq hresponse] at hread
  have hskip : s.asyncSkipCrlf n = s.asyncReadCrlf n [] := by rw [asyncSkipCrlf, hresponse]
  refine ⟨r, k, (hskip.trans (asyncReadCrlf_of_read n [] hread)).trans ?_⟩
  show (s.moved r k).handleSkipCrlf n [c, '\x00'] none 1 = _
  have hnot : ¬ (s.moved r k).mIsChunkedEnd = true := by simp [moved, hended]
  rw [handleSkipCrlf, if_neg hnot, if_pos (by simp [Str.crlf])]

theorem asyncReadCrlf_dry (hsock : s.sock.content = []) (hcrlf : crlf.length < 2) (n : Nat) :
    s.asyncReadCrlf n crlf = if s.closed then some (⟨[], 0, some .eof⟩, s.moved [] s.sock) else none := by
  have hpieces : (s.moved [] s.sock).pieces = [] := pieces_eq_nil hsock
  rw [asyncReadCrlf, sockRead_eq rfl, readSomeImpl_no_piece hpieces, if_neg (by omega)]
  show (match if s.closed then some (([] : Str), some StreamErrc.eof, s.moved [] s.sock) else none with
    | none => none
    | some (bytes, ec, s) => s.handleSkipCrlf n (crlfArray (crlf ++ bytes)) ec bytes.length) = _
  cases s.closed <;> rfl

theorem asyncSkipCrlf_dry (hshort : s.content.length < 2) (hlone : ¬ s.LoneByte) (n : Nat) :
    s.asyncSkipCrlf n = if s.closed then some (⟨[], 0, some .eof⟩, s.moved [] s.sock) else none := by
  have hlength : s.mResponse.length + s.sock.content.length < 2 := by
    rwa [content, length_append] at hshort
  match hresponse : s.mResponse with
  | [] =>
    rw [asyncSkipCrlf, hresponse]
    refine asyncReadCrlf_dry ?_ (by simp) n
    cases hsegs : s.sock.segs with
    | nil => rw [Pending.content, hsegs, flatten_nil]
    | cons p rest =>
      have hpos := length_pos_iff.mpr (s.sock.nonempty p (by rw [hsegs]; exact mem_cons_self))
      rw [Pending.content, hsegs, flatten_cons, length_append] at hlength
      exact absurd ⟨hresponse, by rw [hsegs, head?_cons, map_some]; exact congrArg some (by omega)⟩ hlone
  | [b] =>
    rw [hresponse, length_singleton] at hlength
    rw [asyncSkipCrlf, hresponse]
    exact asyncReadCrlf_dry (length_eq_zero_iff.mp (by omega)) (by simp) n
  | b :: b' :: response =>
    rw [hresponse, length_cons, length_cons] at hlength
    omega

theorem handleSkipCrlf_of_bytes (hended : s.mIsChunkedEnd = false) :
    s.handleSkipCrlf n crlf none m =
      if crlf = Str.crlf then s.asyncReadSize n else some (⟨[], m, some .invalidChunkedEncoding⟩, s) := by
  rw [handleSkipCrlf, if_neg (by simp [hended]), ite_not]

theorem nextChunk_of_bytes (hcontent : s.content = c :: d :: after)
    (hended : s.mIsChunkedEnd = false) (hskip : s.mSkipCrlf = false) :
    ∃ r k, s.nextChunk = (if [c, d] = Str.crlf then (s.moved r k).readSize
        else some (.returned ⟨[], 2, some .invalidChunkedEncoding⟩ (s.moved r k))) ∧
      (s.moved r k).pieces = dropped 2 s.pieces := by
  obtain ⟨r, k, hread, -, hpieces⟩ := readCrlf_spec hcontent
  refine ⟨r, k, ?_, hpieces⟩
  have hopen : ¬ (s.moved r k).mIsChunkedEnd = true := by simp [moved, hended]
  rw [nextChunk, if_neg (by simp [hskip]), hread]
  simp only [hopen, ite_not]
  rfl

theorem sameRead_skip (h : Alongside s t) (hended : s.mIsChunkedEnd = false) (hsize : s.mChunkedSize = 0)
    (hskip : s.mSkipCrlf = false) (hcuts : ¬ t.CutsLineEnd) (n : Nat) :
    SameRead (finish s.nextChunk n) (t.asyncSkipCrlf n) := by
  obtain ⟨hchunked, ⟨r, k, rfl⟩, hpieces⟩ := h
  have hcontent : (s.moved r k).content = s.content := Alongside.content_eq ⟨hchunked, ⟨r, k, rfl⟩, hpieces⟩
  have hwhole : (s.moved r k).LoneByte → ¬ (s.content.length = 1 ∨ Str.crlf <+: s.content) := by
    rintro ⟨hresponse, hfirst⟩ hcut
    exact hcuts ⟨hsize, hskip, hresponse, hfirst, by rwa [hcontent]⟩
  by_cases hshort : s.content.length < 2
  · have hlone : ¬ (s.moved r k).LoneByte := by
      intro hlone
      have hpos : 0 < (s.moved r k).content.length := hlone.content_pos
      rw [hcontent] at hpos
      exact hwhole hlone (.inl (by omega))
    obtain ⟨r', k', hread⟩ := finish_nextChunk_dry hshort hskip n
    rw [asyncSkipCrlf_dry (by rwa [hcontent]) hlone, hread]
    show SameRead _ (if s.closed then _ else none)
    cases s.closed with
    | false => exact .waits
    | true => exact .fails rfl
  · obtain ⟨c, d, after, hbytes⟩ : ∃ c d after, s.content = c :: d :: after := by
      match hbytes : s.content, hshort with
      | [], hshort => exact absurd (by simp) hshort
      | [c], hshort => exact absurd (by simp) hshort
      | c :: d :: after, _ => exact ⟨c, d, after, rfl⟩
    obtain ⟨r₁, k₁, hnext, hpieces₁⟩ := nextChunk_of_bytes hbytes hended hskip
    rw [hnext]
    by_cases hcrlf : [c, d] = Str.crlf
    · have hlone : ¬ (s.moved r k).LoneByte := fun hlone => hwhole hlone (.inr ⟨after, by rw [← hcrlf, hbytes]; rfl⟩)
      obtain ⟨r₂, k₂, m, hread₂, hpieces₂⟩ := asyncSkipCrlf_spec (hcontent.trans hbytes) hlone n
      rw [hread₂, handleSkipCrlf_of_bytes (s := (s.moved r k).moved r₂ k₂) hended, if_pos hcrlf, if_pos hcrlf]
      refine sameRead_size (s := s.moved r₁ k₁) ⟨hchunked, ⟨r₂, k₂, rfl⟩, ?_⟩ n
      exact hpieces₂.trans ((congrArg _ hpieces).trans hpieces₁.symm)
    · rw [if_neg hcrlf]
      by_cases hlone : (s.moved r k).LoneByte
      · obtain ⟨r₂, k₂, hread₂⟩ := asyncSkipCrlf_lone hlone hended n
        rw [hread₂]
        exact .fails rfl
      · obtain ⟨r₂, k₂, m, hread₂, -⟩ := asyncSkipCrlf_spec (hcontent.trans hbytes) hlone n
        rw [hread₂, handleSkipCrlf_of_bytes (s := (s.moved r k).moved r₂ k₂) hended, if_neg hcrlf]
        exact .fails rfl

theorem sameRead_of_not_cuts (h : Alongside s t) (hended : s.mIsChunkedEnd = false)
    (hcuts : ¬ t.CutsLineEnd) (n : Nat) : SameRead (s.readSome n) (t.asyncReadSome n) := by
  obtain ⟨hchunked, ⟨r, k, rfl⟩, hpieces⟩ := h
  rw [readSome, if_pos hchunked, asyncReadSome, if_pos (show (s.moved r k).mIsChunked = true from hchunked)]
  by_cases hsize : s.mChunkedSize = 0
  · rw [if_pos hsize, if_pos (show (s.moved r k).mChunkedSize = 0 from hsize)]
    cases hskip : s.mSkipCrlf with
    | true =>
      rw [if_pos (show (s.moved r k).mSkipCrlf = true from hskip), nextChunk, if_pos hskip]
      exact sameRead_size ⟨hchunked, ⟨r, k, rfl⟩, hpieces⟩ n
    | false =>
      rw [if_neg (by simp [moved, hskip])]
      exact sameRead_skip ⟨hchunked, ⟨r, k, rfl⟩, hpieces⟩ hended hsize hskip hcuts n
  · rw [if_neg hsize, if_neg (show ¬ (s.moved r k).mChunkedSize = 0 from hsize), asyncReadData_eq (s := s.moved r k) hsize]
    exact sameRead_readChunk ⟨hchunked, ⟨r, k, rfl⟩, hpieces⟩ n

/-! ### The whole chain -/

theorem chain_waits (hread : read s n = none) (ns : List Nat) :
    chain read s (n :: ns) = ([], .waiting) ∧ goesOn read s n = none := by
  rw [chain, goesOn, hread]
  exact ⟨rfl, rfl⟩

theorem chain_fails {ec : StreamErrc} (hread : read s n = some (⟨bytes, m, some ec⟩, t)) (ns : List Nat) :
    chain read s (n :: ns) = (bytes, if t.mIsChunkedEnd then .endOfBody (some ec) else .failed ec) ∧ goesOn read s n = none := by
  rw [chain, goesOn, hread]
  refine ⟨?_, if_pos (.inr (by simp))⟩
  cases hended : t.mIsChunkedEnd with
  | false => exact if_neg (by simp [hended])
  | true => exact if_pos hended

theorem chain_ends (hread : read s n = some (⟨bytes, m, none⟩, t)) (hended : t.mIsChunkedEnd = true) (ns : List Nat) :
    chain read s (n :: ns) = (bytes, .endOfBody none) ∧ goesOn read s n = none := by
  rw [chain, goesOn, hread]
  exact ⟨if_pos hended, if_pos (.inl hended)⟩

theorem chain_goes_on
    (hread : read s n = some (⟨bytes, m, none⟩, t)) (hended : t.mIsChunkedEnd = false) (ns : List Nat) :
    chain read s (n :: ns) = (bytes ++ (chain read t ns).1, (chain read t ns).2) ∧ goesOn read s n = some t := by
  rw [chain, goesOn, hread]
  exact ⟨if_neg (by simp [hended]), if_neg (by simp [hended])⟩

theorem chain_ne_invalid (hchunked : s.mIsChunked = true) (hended : s.mIsChunkedEnd = false) (hsize : s.mChunkedSize ≠ 0)
    (ns : List Nat) : chain readSome s ns ≠ ([], .failed .invalidChunkedEncoding) := by
  induction ns generalizing s with
  | nil => simp [chain]
  | cons n ns ih =>
    have hread : s.readChunk n = s.readSome n := readChunk_eq_readSome hchunked hsize
    rw [readChunk, if_pos hsize, eq_comm] at hread
    cases hpieces : s.pieces with
    | nil =>
      rw [readSomeImpl_no_piece hpieces] at hread
      by_cases hn : min n s.mChunkedSize = 0
      · rw [if_pos hn] at hread
        rw [(chain_goes_on hread hended ns).1]
        exact ih hchunked hended hsize
      · rw [if_neg hn] at hread
        cases hclosed : s.closed with
        | false =>
          rw [hclosed] at hread
          rw [(chain_waits hread ns).1]
          simp
        | true =>
          rw [hclosed] at hread
          rw [(chain_fails hread ns).1]
          simp [hended]
    | cons p rest =>
      obtain ⟨r, k, himpl, -⟩ := readSomeImpl_dropped hpieces (min n s.mChunkedSize)
      rw [himpl] at hread
      rw [(chain_goes_on hread hended ns).1]
      by_cases hn : n = 0
      · rw [hn, Nat.zero_min, take_zero]
        exact ih hchunked hended hsize
      · have hne : p ≠ [] := ne_nil_of_mem_pieces (s := s) (by rw [hpieces]; exact mem_cons_self)
        simp [hn, hne, hsize]

theorem chain_ne_invalid_of_eof (hended : t.mIsChunkedEnd = false)
    (hread : s.readSome n = if s.closed then some (⟨[], 0, some .eof⟩, t) else none) (ns : List Nat) :
    chain readSome s (n :: ns) ≠ ([], .failed .invalidChunkedEncoding) := by
  cases hclosed : s.closed with
  | false =>
    rw [hclosed] at hread
    rw [(chain_waits hread ns).1]
    simp
  | true =>
    rw [hclosed] at hread
    rw [(chain_fails hread ns).1]
    simp [hended]

theorem chain_ne_invalid_of_readSize (hchunked : s.mIsChunked = true) (hended : s.mIsChunkedEnd = false) (r : Str)
    (k : Pending Char) (hread : s.readSome n = finish (s.moved r k).readSize n) (ns : List Nat) :
    chain readSome s (n :: ns) ≠ ([], .failed .invalidChunkedEncoding) := by
  cases hcut : cutLine (s.moved r k).content with
  | none =>
    obtain ⟨r', k', hdry⟩ := finish_readSize_dry hcut n
    exact chain_ne_invalid_of_eof (t := (s.moved r k).moved r' k') hended (hread.trans hdry) ns
  | some cut =>
    obtain ⟨r', k', hspec, -⟩ := finish_readSize_spec hcut n
    rw [hspec] at hread
    by_cases hsize : hexSize (cut.1 ++ Str.crlf) = 0
    · rw [readChunk, if_neg (by simpa [sized] using hsize)] at hread
      rw [chain, hread]
      simp
    · rw [readChunk_eq_readSome (s := ((s.moved r k).moved r' k').sized (cut.1 ++ Str.crlf)) hchunked hsize] at hread
      rw [chain, hread, ← chain]
      exact chain_ne_invalid (s := ((s.moved r k).moved r' k').sized (cut.1 ++ Str.crlf)) hchunked hended hsize (n :: ns)

theorem chain_ne_of_cuts (h : Alongside s t) (hended : s.mIsChunkedEnd = false) (hcuts : t.CutsLineEnd) (n : Nat) (ns : List Nat) :
    chain asyncReadSome t (n :: ns) ≠ chain readSome s (n :: ns) := by
  have hcontent := h.content_eq
  obtain ⟨hchunked, ⟨r, k, rfl⟩, -⟩ := h
  obtain ⟨hsize, hskip, hresponse, hfirst, hcut⟩ := hcuts
  obtain ⟨r', k', hlone⟩ := asyncSkipCrlf_lone ⟨hresponse, hfirst⟩ hended n
  have hasync : (s.moved r k).asyncReadSome n = (s.moved r k).asyncSkipCrlf n := by
    rw [asyncReadSome, if_pos (show (s.moved r k).mIsChunked = true from hchunked), if_pos hsize, if_neg (by simp [hskip])]
  have hread : s.readSome n = finish s.nextChunk n := by
    rw [readSome, if_pos hchunked, if_pos (show s.mChunkedSize = 0 from hsize)]
    rfl
  rw [(chain_fails (hasync.trans hlone) ns).1, if_neg (by simp [moved, hended])]
  refine Ne.symm ?_
  rw [hcontent] at hcut
  rcases hcut with hone | ⟨after, hafter⟩
  · obtain ⟨r₁, k₁, hdry⟩ := finish_nextChunk_dry (by omega) (show s.mSkipCrlf = false from hskip) n
    exact chain_ne_invalid_of_eof (t := s.moved r₁ k₁) hended (hread.trans hdry) ns
  · obtain ⟨r₁, k₁, hnext, -⟩ := nextChunk_of_bytes hafter.symm hended hskip
    rw [hnext, if_pos (show ['\r', '\n'] = Str.crlf from rfl)] at hread
    exact chain_ne_invalid_of_readSize hchunked hended r₁ k₁ hread ns

theorem chain_eq_iff (h : Alongside s t) (hended : s.mIsChunkedEnd = false) (ns : List Nat) :
    chain asyncReadSome t ns = chain readSome s ns ↔
      EventMachine.Meets (goesOn asyncReadSome) (fun t _ => ¬ t.CutsLineEnd) t ns := by
  induction ns generalizing s t with
  | nil => exact ⟨fun _ => trivial, fun _ => rfl⟩
  | cons n ns ih =>
    rw [EventMachine.Meets]
    by_cases hcuts : t.CutsLineEnd
    · exact ⟨fun heq => absurd heq (chain_ne_of_cuts h hended hcuts n ns), fun hmeets => absurd hcuts hmeets.1⟩
    · have hsame := sameRead_of_not_cuts h hended hcuts n
      generalize hread : s.readSome n = answer at hsame
      generalize hasync : t.asyncReadSome n = answer' at hsame
      cases hsame with
      | waits =>
        obtain ⟨hchain, -⟩ := chain_waits hread ns
        obtain ⟨hchain', hstop⟩ := chain_waits hasync ns
        rw [hchain, hchain', hstop]
        exact ⟨fun _ => ⟨hcuts, trivial⟩, fun _ => rfl⟩
      | fails hsame =>
        obtain ⟨hchain, -⟩ := chain_fails hread ns
        obtain ⟨hchain', hstop⟩ := chain_fails hasync ns
        rw [hchain, hchain', hstop, hsame]
        exact ⟨fun _ => ⟨hcuts, trivial⟩, fun _ => rfl⟩
      | @reads bytes _ _ s' t' halong =>
        obtain ⟨hchunked', ⟨r, k, rfl⟩, hpieces⟩ := halong
        cases hended' : s'.mIsChunkedEnd with
        | true =>
          obtain ⟨hchain, -⟩ := chain_ends hread hended' ns
          obtain ⟨hchain', hstop⟩ := chain_ends hasync hended' ns
          rw [hchain, hchain', hstop]
          exact ⟨fun _ => ⟨hcuts, trivial⟩, fun _ => rfl⟩
        | false =>
          obtain ⟨hchain, -⟩ := chain_goes_on hread hended' ns
          obtain ⟨hchain', hnext⟩ := chain_goes_on hasync hended' ns
          rw [hchain, hchain', hnext, elim_some, ← ih ⟨hchunked', ⟨r, k, rfl⟩, hpieces⟩ hended', Prod.mk.injEq,
            append_cancel_left_eq, ← Prod.ext_iff]
          exact ⟨fun heq => ⟨hcuts, heq⟩, fun hrest => hrest.2⟩

/-- Both chains of calls give the same bytes and end in the same way exactly if no asynchronous call meets a line end that is cut. -/
theorem chain_asyncReadSome_eq_iff (hheader : HeaderReceived s) (sizes : List Nat) :
    chain asyncReadSome s sizes = chain readSome s sizes ↔
      EventMachine.Meets (goesOn asyncReadSome) (fun s _ => ¬ s.CutsLineEnd) s sizes :=
  chain_eq_iff ⟨hheader.chunked, ⟨s.mResponse, s.sock, rfl⟩, rfl⟩ hheader.not_ended sizes

theorem chain_asyncReadSome_eq_of_sampleStream :
    HeaderReceived sampleStream ∧ chain asyncReadSome sampleStream [2, 2, 2, 2] = chain readSome sampleStream [2, 2, 2, 2] ∧
      chain readSome sampleStream [2, 2, 2, 2] = ("abcd".toList, .endOfBody (some .eof)) :=
  ⟨⟨rfl, rfl, rfl, rfl⟩, (chain_asyncReadSome_eq_iff ⟨rfl, rfl, rfl, rfl⟩ [2, 2, 2, 2]).mpr (by decide), by decide⟩

def cutStream : HttpStream :=
  sampleStream.moved "3\r\n".toList ⟨["abc\r".toList, "\n0\r\n\r\n".toList], by decide⟩

theorem lineEnd_between_pieces :
    HeaderReceived cutStream ∧ chain readSome cutStream [8, 8] = ("abc".toList, .endOfBody (some .eof)) ∧
      chain asyncReadSome cutStream [8, 8] = ("abc".toList, .failed .invalidChunkedEncoding) :=
  ⟨⟨rfl, rfl, rfl, rfl⟩, by decide, by decide⟩

end HttpStream

end Avbot.Http
