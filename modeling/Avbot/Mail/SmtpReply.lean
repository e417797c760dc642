import Avbot.Base.StringAlgo
import Avbot.Lib.SegmentedInput

/-!
# Reading an SMTP reply

A reply is any number of lines `CODE-text` and a last line `CODE text`. `read_smtp_response_lines` waits for `[0-9]*? .*?\n` to match somewhere in the buffer, for which a blank with a line feed after it is enough, so `check_smtp_response` may see only the front of the reply.
-/

namespace Avbot

open List SegmentedInput
open Str (cStr crlf decimal trimRight)

def ErrorCode.protocolError : ErrorCode := ⟨71, .generic⟩

/-- `boost::system::errc::success`, as `make_error_code` makes it. -/
def ErrorCode.errcSuccess : ErrorCode := ⟨0, .generic⟩

namespace Smtp

/-- `regex_search` for `[0-9]*? .*?\n`, in which the digits may be none and the dot is any character. -/
def hasResponse (buf : Str) : Bool := (buf.dropWhile (· ≠ ' ')).contains '\n'

/-- `regex_match` of a line, as a C string, with `CODE (.*)?` or, for the separator `-`, with `CODE-(.*)?`: the text. -/
def matchLine (responseCode : Nat) (separator : Char) (line : Str) : Option Str :=
  let start := decimal responseCode ++ [separator]
  if start.isPrefixOf (cStr line) then some ((cStr line).drop start.length) else none

/-- What `check_smtp_response` leaves behind: the error, the texts given to the callback and the rest of the buffer. -/
structure Checked where
  ec : ErrorCode
  texts : List Str
  readbuf : Str
  deriving DecidableEq

def checkLoop (responseCode : Nat) : Nat → List Str → Istream → Option Checked
  | 0, _, _ => none
  | n + 1, texts, stream =>
    if stream.eof then some ⟨.protocolError, texts, stream.buf⟩
    else
      let (line, stream) := stream.getline
      let line := trimRight line
      if line = [] then checkLoop responseCode n texts stream
      else
        match matchLine responseCode ' ' line with
        | some text => some ⟨.errcSuccess, texts ++ [text], stream.buf⟩
        | none =>
          match matchLine responseCode '-' line with
          | some text => checkLoop responseCode n (texts ++ [text]) stream
          | none => some ⟨.protocolError, texts, stream.buf⟩

theorem checkLoop_isSome (responseCode : Nat) {n : Nat} (texts : List Str) {stream : Istream}
    (hn : stream.buf.length + (if stream.eof then 0 else 1) < n) :
    (checkLoop responseCode n texts stream).isSome := by
  induction n generalizing texts stream with
  | zero => omega
  | succ n ih =>
    cases heof : stream.eof with
    | true => simp [checkLoop, heof]
    | false =>
      have hnext : stream.getline.2.buf.length + (if stream.getline.2.eof then 0 else 1) < n := by
        simp only [heof, Bool.false_eq_true, if_false] at hn
        cases hline : stream.getline.2.eof with
        | false =>
          have hlt := Istream.getline_length_lt heof hline
          simp only [Bool.false_eq_true, if_false]
          omega
        | true =>
          have hle := Istream.getline_length_le stream
          simp only [if_true]
          omega
      simp only [checkLoop, heof, Bool.false_eq_true, if_false]
      split
      · exact ih _ hnext
      · split
        · rfl
        · split
          · exact ih _ hnext
          · rfl

def checkSmtpResponse (responseCode : Nat) (readbuf : Str) : Checked :=
  (checkLoop responseCode (readbuf.length + 2) [] ⟨readbuf, false⟩).get
    (checkLoop_isSome _ _ (Nat.lt_succ_self _))

/-- `read_smtp_response_lines` into an empty buffer and then `check_smtp_response`. Nothing is answered as long as the read has not completed. -/
def readResponse (responseCode : Nat) (segs : List Str) : Option Checked :=
  (readUntil hasResponse [] segs).map fun r => checkSmtpResponse responseCode r.1

/-! ### The loop -/

variable {responseCode n : Nat} {texts : List Str} {line : Str} {stream : Istream}

theorem checkLoop_of_eof (heof : stream.eof = true) :
    checkLoop responseCode (n + 1) texts stream = some ⟨.protocolError, texts, stream.buf⟩ := by
  rw [checkLoop, if_pos heof]

section

variable (hopen : stream.eof = false)

include hopen

theorem checkLoop_of_blank (hblank : trimRight stream.getline.1 = []) :
    checkLoop responseCode (n + 1) texts stream = checkLoop responseCode n texts stream.getline.2 := by
  simp [checkLoop, hopen, hblank]

theorem checkLoop_of_last {text : Str} (hmatch : matchLine responseCode ' ' (trimRight stream.getline.1) = some text) :
    checkLoop responseCode (n + 1) texts stream =
      some ⟨.errcSuccess, texts ++ [text], stream.getline.2.buf⟩ := by
  have hne : trimRight stream.getline.1 ≠ [] := by
    intro hblank
    simp [hblank, matchLine, cStr] at hmatch
  simp [checkLoop, hopen, hne, hmatch]

theorem checkLoop_of_continued {text : Str} (hlast : matchLine responseCode ' ' (trimRight stream.getline.1) = none)
    (hmatch : matchLine responseCode '-' (trimRight stream.getline.1) = some text) :
    checkLoop responseCode (n + 1) texts stream =
      checkLoop responseCode n (texts ++ [text]) stream.getline.2 := by
  have hne : trimRight stream.getline.1 ≠ [] := by
    intro hblank
    simp [hblank, matchLine, cStr] at hmatch
  simp [checkLoop, hopen, hne, hlast, hmatch]

theorem checkLoop_of_other (hne : trimRight stream.getline.1 ≠ [])
    (hlast : matchLine responseCode ' ' (trimRight stream.getline.1) = none)
    (hcontinued : matchLine responseCode '-' (trimRight stream.getline.1) = none) :
    checkLoop responseCode (n + 1) texts stream =
      some ⟨.protocolError, texts, stream.getline.2.buf⟩ := by
  simp [checkLoop, hopen, hne, hlast, hcontinued]

end

variable {r : Checked} {readbuf u v front : Str} {c d : Nat} {s t separator : Char}
    {ts : List Str}

theorem checkLoop_mono {m : Nat} (hm : n ≤ m) (hloop : checkLoop responseCode n texts stream = some r) :
    checkLoop responseCode m texts stream = some r := by
  induction n generalizing m texts stream with
  | zero => simp [checkLoop] at hloop
  | succ n ih =>
    obtain ⟨m, rfl⟩ : ∃ k, m = k + 1 := ⟨m - 1, by omega⟩
    have hnm : n ≤ m := by omega
    simp only [checkLoop] at hloop ⊢
    split
    · rename_i heof
      rwa [if_pos heof] at hloop
    · rename_i heof
      rw [if_neg heof] at hloop
      split
      · rename_i hblank
        rw [if_pos hblank] at hloop
        exact ih hnm hloop
      · rename_i hblank
        rw [if_neg hblank] at hloop
        split
        · rename_i text hmatch
          rwa [hmatch] at hloop
        · rename_i hmatch
          rw [hmatch] at hloop
          split
          · rename_i text hcontinued
            rw [hcontinued] at hloop
            exact ih hnm hloop
          · rename_i hcontinued
            rwa [hcontinued] at hloop

theorem checkSmtpResponse_eq (hloop : checkLoop responseCode n [] ⟨readbuf, false⟩ = some r) :
    checkSmtpResponse responseCode readbuf = r := by
  have hsome : checkLoop responseCode (readbuf.length + 2) [] ⟨readbuf, false⟩ =
      some (checkSmtpResponse responseCode readbuf) := (Option.some_get _).symm
  have hlong := checkLoop_mono (Nat.le_max_left n (readbuf.length + 2)) hloop
  have hfull := checkLoop_mono (Nat.le_max_right n (readbuf.length + 2)) hsome
  exact Option.some.inj (hfull.symm.trans hlong)

/-! ### One line -/

/-- The text that is passed on: without blanks at its end, and up to the first `NUL`. -/
def clean (text : Str) : Str := cStr (trimRight text)

def Plain (text : Str) : Prop := '\x00' ∉ text ∧ ∀ c ∈ text.getLast?, Str.isSpace c = false

theorem clean_length_le (text : Str) : (clean text).length ≤ text.length :=
  (Str.cStr_length_le _).trans (Str.trimRight_length_le _)

theorem clean_eq_self_iff {text : Str} : clean text = text ↔ Plain text := by
  constructor
  · intro h
    have htrim : trimRight text = text := by
      refine ( rdropWhile_prefix _ text).eq_of_length_le ?_
      calc text.length = (clean text).length := by rw [h]
        _ ≤ (trimRight text).length := Str.cStr_length_le _
    refine ⟨Str.cStr_eq_self_iff.mp ?_, Str.trimRight_eq_self_iff.mp htrim⟩
    rw [clean, htrim] at h
    exact h
  · rintro ⟨hnul, hlast⟩
    rw [clean, Str.trimRight_eq_self_iff.mpr hlast, Str.cStr_eq_self_iff.mpr hnul]

theorem code_unique (hs : s.isDigit = false) (ht : t.isDigit = false)
    (h : decimal c ++ s :: u = decimal d ++ t :: v) : c = d ∧ s = t := by
  have htake : ∀ {k : Nat} {x : Char} {w : Str}, x.isDigit = false →
      (decimal k ++ x :: w).takeWhile Char.isDigit = decimal k := by
    intro k x w hx
    rw [takeWhile_append_of_pos fun c hc => Str.isDigit_of_mem_decimal hc,
      takeWhile_cons_of_neg (by simp [hx]), append_nil]
  have hcode : decimal c = decimal d := by
    rw [← htake (k := c) (w := u) hs, h, htake ht]
  rw [hcode] at h
  exact ⟨Str.decimal_injective hcode, (cons.inj (append_cancel_left h)).1⟩

theorem code_unique_of_prefix (hs : s.isDigit = false)
    (ht : t.isDigit = false) (h : decimal c ++ s :: u <+: decimal d ++ t :: v) : c = d ∧ s = t := by
  obtain ⟨w, hw⟩ := h
  have hwhole : decimal c ++ s :: (u ++ w) = decimal d ++ t :: v := by
    rw [← hw]
    simp
  exact code_unique hs ht hwhole

theorem matchLine_eq_some {text : Str} (hmatch : matchLine responseCode separator line = some text) :
    decimal responseCode ++ separator :: text = cStr line := by
  simp only [matchLine] at hmatch
  split at hmatch
  · rename_i hstart
    obtain ⟨rest, hrest⟩ := isPrefixOf_iff_prefix.mp hstart
    rw [← hrest, drop_left, Option.some.injEq] at hmatch
    rw [← hrest, hmatch]
    simp
  · simp at hmatch

theorem matchLine_of_front {code : Nat} {separator' : Char} {rest : Str}
    (hs : separator.isDigit = false) (hs' : separator'.isDigit = false)
    (hline : line <+: decimal code ++ separator' :: rest) (hne : responseCode = code → separator ≠ separator') :
    matchLine responseCode separator (trimRight line) = none := by
  cases hmatch : matchLine responseCode separator (trimRight line) with
  | none => rfl
  | some text =>
    have htext := matchLine_eq_some hmatch
    have hstart : decimal responseCode ++ separator :: text <+: decimal code ++ separator' :: rest := by
      rw [htext]
      exact (( takeWhile_prefix _).trans ( rdropWhile_prefix _ line)).trans hline
    obtain ⟨hcode, hsep⟩ := code_unique_of_prefix hs hs' hstart
    exact absurd hsep (hne hcode)

theorem matchLine_of_code {text : Str} (hs : separator ≠ '\x00') :
    matchLine responseCode separator (decimal responseCode ++ separator :: text) = some (cStr text) := by
  have hnul : '\x00' ∉ decimal responseCode ++ [separator] := by
    rw [mem_append, mem_singleton, not_or]
    exact ⟨Str.not_mem_decimal (by decide), Ne.symm hs⟩
  have hcStr : cStr (decimal responseCode ++ separator :: text) =
      (decimal responseCode ++ [separator]) ++ cStr text := by
    rw [← Str.cStr_append_of_not_mem hnul, append_assoc]
    rfl
  simp only [matchLine, hcStr]
  rw [if_pos ( isPrefixOf_iff_prefix.mpr (prefix_append _ _)), drop_left]

/-! ### The lines of a reply -/

structure Reply where
  code : Nat
  texts : List Str
  last : Str
  texts_one_line : ∀ text ∈ texts, '\n' ∉ text
  last_one_line : '\n' ∉ last

def continuedLine (code : Nat) (text : Str) : Str := decimal code ++ '-' :: text ++ crlf

def lastLine (code : Nat) (text : Str) : Str := decimal code ++ ' ' :: text ++ crlf

def Reply.bytes (r : Reply) : Str := r.texts.flatMap (continuedLine r.code) ++ lastLine r.code r.last

variable {text rest : Str}

theorem not_mem_line (hs : separator ≠ '\n') (htext : '\n' ∉ text) :
    '\n' ∉ decimal responseCode ++ separator :: text := by
  rw [mem_append, mem_cons, not_or, not_or]
  exact ⟨Str.not_mem_decimal (by decide), Ne.symm hs, htext⟩

theorem not_mem_append_cr (htext : '\n' ∉ text) : '\n' ∉ text ++ ['\r'] := by
  simpa using htext

theorem checkLoop_continuedLine (htext : '\n' ∉ text) :
    checkLoop responseCode (n + 1) texts ⟨continuedLine responseCode text ++ rest, false⟩ =
      checkLoop responseCode n (texts ++ [clean text]) ⟨rest, false⟩ := by
  have hbuf : continuedLine responseCode text ++ rest =
      (decimal responseCode ++ '-' :: (text ++ ['\r'])) ++ '\n' :: rest := by
    simp [continuedLine, crlf]
  have hone : '\n' ∉ decimal responseCode ++ '-' :: (text ++ ['\r']) :=
    not_mem_line (by decide) (not_mem_append_cr htext)
  have hline := Istream.getline_of_line hone rest
  rw [← hbuf] at hline
  have htrim : trimRight (decimal responseCode ++ '-' :: (text ++ ['\r'])) =
      decimal responseCode ++ '-' :: trimRight text := by
    rw [Str.trimRight_append_cons (by decide), Str.trimRight_crlf]
  rw [checkLoop_of_continued rfl, hline]
  · rw [hline]
    exact matchLine_of_front (by decide) (by decide) (prefix_refl _) (by simp)
  · rw [hline, htrim, matchLine_of_code (by decide)]
    rfl

theorem checkLoop_continuedLines (hts : ∀ text ∈ ts, '\n' ∉ text) :
    checkLoop responseCode (ts.length + n) texts ⟨ts.flatMap (continuedLine responseCode) ++ rest, false⟩ =
      checkLoop responseCode n (texts ++ ts.map clean) ⟨rest, false⟩ := by
  induction ts generalizing texts with
  | nil => simp
  | cons t ts ih =>
    rw [flatMap_cons, append_assoc, length_cons, Nat.add_right_comm,
      checkLoop_continuedLine (hts t (by simp)), ih fun text htext => hts text (by simp [htext])]
    simp

theorem checkLoop_lastLine (hopen : stream.eof = false)
    (hline : stream.getline.1 = decimal responseCode ++ ' ' :: text) :
    checkLoop responseCode (n + 1) texts stream =
      some (if trimRight text = [] then ⟨.protocolError, texts, stream.getline.2.buf⟩
        else ⟨.errcSuccess, texts ++ [clean text], stream.getline.2.buf⟩) := by
  by_cases hblank : trimRight text = []
  · have htrim : trimRight (decimal responseCode ++ ' ' :: text) = decimal responseCode := by
      have hspace : trimRight (' ' :: text) = [] := by
        rw [trimRight, rdropWhile_eq_nil_iff] at hblank ⊢
        intro c hc
        rcases mem_cons.mp hc with rfl | hc
        · decide
        · exact hblank c hc
      rw [Str.trimRight_append_of_nil hspace, Str.trimRight_eq_self_iff]
      intro c hc
      exact Str.isSpace_of_isDigit (Str.isDigit_of_mem_decimal (mem_of_getLast? hc))
    have hnone : ∀ separator : Char, matchLine responseCode separator (decimal responseCode) = none := by
      intro separator
      cases hmatch : matchLine responseCode separator (decimal responseCode) with
      | none => rfl
      | some t =>
        have hlength := congrArg length (matchLine_eq_some hmatch)
        have hle := Str.cStr_length_le (decimal responseCode)
        simp only [length_append, length_cons] at hlength
        omega
    rw [if_pos hblank]
    refine checkLoop_of_other hopen ?_ ?_ ?_
    · rw [hline, htrim]
      exact Str.decimal_ne_nil _
    · rw [hline, htrim, hnone]
    · rw [hline, htrim, hnone]
  · have htrim : trimRight (decimal responseCode ++ ' ' :: text) =
        decimal responseCode ++ ' ' :: trimRight text := by
      have hsplit : decimal responseCode ++ ' ' :: text = (decimal responseCode ++ [' ']) ++ text := by
        simp
      rw [hsplit, Str.trimRight_append_of_ne_nil hblank]
      simp
    rw [if_neg hblank]
    refine checkLoop_of_last hopen ?_
    rw [hline, htrim, matchLine_of_code (by decide)]
    rfl

theorem checkLoop_front (hbuf : readbuf <+: decimal responseCode ++ '-' :: (text ++ ['\r'])) (htext : '\n' ∉ text) :
    ∃ r, checkLoop responseCode (n + 2) texts ⟨readbuf, false⟩ = some r ∧ r.ec = .protocolError := by
  have hone : '\n' ∉ readbuf := fun hmem =>
    not_mem_line (by decide) (not_mem_append_cr htext) (hbuf.subset hmem)
  have hline := Istream.getline_of_no_line hone
  have hlast : matchLine responseCode ' ' (trimRight (Istream.mk readbuf false).getline.1) = none := by
    rw [hline]
    exact matchLine_of_front (by decide) (by decide) hbuf (by simp)
  by_cases hblank : trimRight (Istream.mk readbuf false).getline.1 = []
  · refine ⟨⟨.protocolError, texts, []⟩, ?_, rfl⟩
    rw [checkLoop_of_blank rfl hblank, hline, checkLoop_of_eof rfl]
  · cases hmatch : matchLine responseCode '-' (trimRight (Istream.mk readbuf false).getline.1) with
    | none => exact ⟨_, checkLoop_of_other rfl hblank hlast hmatch, rfl⟩
    | some t =>
      refine ⟨⟨.protocolError, texts ++ [t], []⟩, ?_, rfl⟩
      rw [checkLoop_of_continued rfl hlast hmatch, hline, checkLoop_of_eof rfl]

theorem checkLoop_front_of_continued (hts : ∀ text ∈ ts, '\n' ∉ text)
    (hbuf : readbuf <+: ts.flatMap (continuedLine responseCode))
    (hne : readbuf ≠ ts.flatMap (continuedLine responseCode)) :
    ∃ m r, checkLoop responseCode m texts ⟨readbuf, false⟩ = some r ∧ r.ec = .protocolError := by
  induction ts generalizing readbuf texts with
  | nil => exact absurd (prefix_nil.mp hbuf) hne
  | cons t ts ih =>
    have ht : '\n' ∉ t := hts t (by simp)
    rw [flatMap_cons] at hbuf hne
    rcases prefix_append_cases hbuf with hfront | ⟨more, rfl, hmore⟩
    · -- the buffer ends inside the line, before its line feed
      have hsplit : continuedLine responseCode t =
          (decimal responseCode ++ '-' :: (t ++ ['\r'])) ++ ['\n'] := by
        simp [continuedLine, crlf]
      obtain ⟨hfront, hshort⟩ := hfront
      rw [hsplit] at hfront hshort
      exact ⟨2, checkLoop_front ((prefix_concat_iff.mp hfront).resolve_left hshort) ht⟩
    · obtain ⟨m, r, hloop, hec⟩ := ih (fun text htext => hts text (by simp [htext])) hmore
        (fun h => hne (by rw [h]))
      exact ⟨m + 1, r, by rw [checkLoop_continuedLine ht, hloop], hec⟩

/-! ### A whole reply -/

theorem checkLoop_front_of_last {last : Str} (hlast : '\n' ∉ last) (hfront : front <+: last ++ crlf) :
    checkLoop responseCode (n + 1) texts ⟨decimal responseCode ++ ' ' :: front, false⟩ =
      some (if trimRight front = [] then ⟨.protocolError, texts, []⟩
        else ⟨.errcSuccess, texts ++ [clean front], []⟩) := by
  have hcrlf : last ++ crlf = (last ++ ['\r']) ++ ['\n'] := by simp [crlf]
  rw [hcrlf] at hfront
  rcases prefix_concat_iff.mp hfront with rfl | hshort
  · have hone : '\n' ∉ decimal responseCode ++ ' ' :: (last ++ ['\r']) :=
      not_mem_line (by decide) (not_mem_append_cr hlast)
    have hline := Istream.getline_of_line hone []
    have hbuf : decimal responseCode ++ ' ' :: (last ++ ['\r'] ++ ['\n']) =
        (decimal responseCode ++ ' ' :: (last ++ ['\r'])) ++ '\n' :: [] := by simp
    have htrim : trimRight (last ++ ['\r'] ++ ['\n']) = trimRight (last ++ ['\r']) :=
      Str.trimRight_append_of_nil (by decide)
    rw [hbuf, checkLoop_lastLine rfl (congrArg Prod.fst hline), hline, clean, clean, htrim]
  · have hone : '\n' ∉ decimal responseCode ++ ' ' :: front :=
      not_mem_line (by decide) fun hmem => not_mem_append_cr hlast (hshort.subset hmem)
    have hline := Istream.getline_of_no_line hone
    rw [checkLoop_lastLine rfl (congrArg Prod.fst hline), hline]

theorem checkLoop_front_of_code (hfront : front <+: decimal responseCode) :
    ∃ r, checkLoop responseCode (n + 2) texts ⟨front, false⟩ = some r ∧ r.ec = .protocolError :=
  checkLoop_front (hfront.trans (prefix_append _ _)) not_mem_nil

theorem trimRight_of_front_crlf {more : Str} (hover : more <+: crlf) : trimRight more = [] := by
  rw [trimRight, rdropWhile_eq_nil_iff]
  intro c hc
  have hmem : c = '\r' ∨ c = '\n' := by simpa [crlf] using hover.subset hc
  rcases hmem with rfl | rfl <;> decide

namespace Reply

variable (r : Reply)

theorem bytes_eq : r.bytes =
    r.texts.flatMap (continuedLine r.code) ++ (decimal r.code ++ ' ' :: (r.last ++ crlf)) := by
  simp [bytes, lastLine]

theorem check_append {front : Str} {checked : Checked}
    (hloop : checkLoop r.code n (r.texts.map clean) ⟨front, false⟩ = some checked) :
    checkSmtpResponse r.code (r.texts.flatMap (continuedLine r.code) ++ front) = checked := by
  have hlines : checkLoop r.code (r.texts.length + n) []
      ⟨r.texts.flatMap (continuedLine r.code) ++ front, false⟩ = some checked := by
    rw [checkLoop_continuedLines r.texts_one_line, nil_append, hloop]
  exact checkSmtpResponse_eq hlines

variable {readbuf : Str}

theorem check_front (hfront : readbuf <+: r.bytes) :
    (checkSmtpResponse r.code readbuf).ec = .protocolError ∨
    ∃ front, readbuf = r.texts.flatMap (continuedLine r.code) ++ (decimal r.code ++ ' ' :: front) ∧
      front <+: r.last ++ crlf ∧ trimRight front ≠ [] ∧
      checkSmtpResponse r.code readbuf = ⟨.errcSuccess, r.texts.map clean ++ [clean front], []⟩ := by
  rw [bytes_eq] at hfront
  rcases prefix_append_cases hfront with ⟨hshort, hne⟩ | ⟨line, rfl, hline⟩
  · obtain ⟨m, checked, hloop, hec⟩ := checkLoop_front_of_continued r.texts_one_line hshort hne
    exact .inl (by rw [checkSmtpResponse_eq hloop, hec])
  · have hcode : line <+: decimal r.code → (checkSmtpResponse r.code
        (r.texts.flatMap (continuedLine r.code) ++ line)).ec = .protocolError := by
      intro hshort
      obtain ⟨checked, hloop, hec⟩ := checkLoop_front_of_code (n := 0) hshort
      rw [r.check_append hloop, hec]
    rcases prefix_append_cases hline with ⟨hshort, _⟩ | ⟨more, rfl, hmore⟩
    · exact .inl (hcode hshort)
    · cases more with
      | nil => exact .inl (hcode (by simp))
      | cons c front =>
        rw [cons_prefix_cons] at hmore
        obtain ⟨rfl, hmore⟩ := hmore
        have hlast := r.check_append (checkLoop_front_of_last (n := 0) r.last_one_line hmore)
        by_cases hblank : trimRight front = []
        · rw [if_pos hblank] at hlast
          exact .inl (by rw [hlast])
        · rw [if_neg hblank] at hlast
          exact .inr ⟨front, rfl, hmore, hblank, hlast⟩

/-- The texts are passed on as they are, and nothing is left in the buffer, exactly when no text is changed by the trimming and the buffer held everything but the end of the last line. -/
theorem check_right_iff {missing : Str} (hbytes : readbuf ++ missing = r.bytes) :
    checkSmtpResponse r.code readbuf = ⟨.errcSuccess, r.texts ++ [r.last], []⟩ ↔
      (∀ text ∈ r.texts, Plain text) ∧ Plain r.last ∧ r.last ≠ [] ∧ missing <:+ crlf := by
  constructor
  · intro hcheck
    rcases r.check_front ⟨missing, hbytes⟩ with hec | ⟨front, rfl, hfront, hblank, hseen⟩
    · rw [hcheck] at hec
      exact absurd hec (show ErrorCode.errcSuccess ≠ .protocolError by decide)
    · rw [hseen, Checked.mk.injEq] at hcheck
      obtain ⟨htexts, hclean⟩ := append_inj' hcheck.2.1 rfl
      have hclean : clean front = r.last := by simpa using hclean
      -- the text that was seen is as long as the text, so all of it had come
      have hlength : r.last.length ≤ front.length := hclean ▸ clean_length_le front
      obtain ⟨more, rfl⟩ : r.last <+: front :=
        prefix_of_prefix_length_le (prefix_append _ _) hfront hlength
      have hover : more <+: crlf := (prefix_append_right_inj _).mp hfront
      have hplain : clean r.last = r.last := by
        rwa [clean, Str.trimRight_append_of_nil (trimRight_of_front_crlf hover)] at hclean
      refine ⟨?_, clean_eq_self_iff.mp hplain, ?_, more, ?_⟩
      · have hmap : r.texts.map clean = r.texts.map id := by rw [htexts, map_id]
        intro text htext
        exact clean_eq_self_iff.mp (map_inj_left.mp hmap text htext)
      · intro hnil
        rw [hnil, nil_append] at hblank
        exact hblank (trimRight_of_front_crlf hover)
      · rw [bytes_eq] at hbytes
        simpa using hbytes
  · rintro ⟨htexts, hlast, hne, more, hover⟩
    have hbuf : readbuf = r.texts.flatMap (continuedLine r.code) ++
        (decimal r.code ++ ' ' :: (r.last ++ more)) := by
      have happend : readbuf ++ missing = (r.texts.flatMap (continuedLine r.code) ++
          (decimal r.code ++ ' ' :: (r.last ++ more))) ++ missing := by
        rw [hbytes, bytes_eq, ← hover]
        simp
      exact append_cancel_right happend
    have hfront : r.last ++ more <+: r.last ++ crlf :=
      (prefix_append_right_inj _).mpr ⟨missing, hover⟩
    have htrim : trimRight (r.last ++ more) = r.last := by
      rw [Str.trimRight_append_of_nil (trimRight_of_front_crlf ⟨missing, hover⟩), Str.trimRight_eq_self_iff.mpr hlast.2]
    have hmap : r.texts.map clean = r.texts := by
      rw [map_congr_left fun text htext => clean_eq_self_iff.mpr (htexts text htext), map_id']
    have hcheck := r.check_append (checkLoop_front_of_last (n := 0) r.last_one_line hfront)
    rw [hmap, clean, htrim, if_neg hne, Str.cStr_eq_self_iff.mpr hlast.1] at hcheck
    rw [hbuf, hcheck]

theorem bytes_start : ∃ separator rest, separator.isDigit = false ∧
    r.bytes = decimal r.code ++ separator :: rest := by
  cases htexts : r.texts with
  | nil => exact ⟨' ', r.last ++ crlf, by decide, by simp [bytes_eq, htexts]⟩
  | cons text texts =>
    refine ⟨'-', text ++ crlf ++ texts.flatMap (continuedLine r.code) ++ lastLine r.code r.last, by decide, ?_⟩
    simp [bytes, htexts, continuedLine]

theorem check_other_code {c : Nat} (hcode : r.code ≠ c) (hne : readbuf ≠ []) (hfront : readbuf <+: r.bytes) :
    (checkSmtpResponse c readbuf).ec = .protocolError ∧ (checkSmtpResponse c readbuf).texts = [] := by
  obtain ⟨separator, rest, hseparator, hbytes⟩ := r.bytes_start
  have hline : (Istream.mk readbuf false).getline.1 <+: decimal r.code ++ separator :: rest :=
    ((Istream.getline_prefix _).trans hfront).trans (hbytes ▸ prefix_refl _)
  have hnone : ∀ s : Char, s.isDigit = false →
      matchLine c s (trimRight (Istream.mk readbuf false).getline.1) = none := by
    intro s hs
    exact matchLine_of_front hs hseparator hline fun h => absurd h.symm hcode
  have hdigit : trimRight (Istream.mk readbuf false).getline.1 ≠ [] := by
    obtain ⟨d, readbuf, rfl⟩ := exists_cons_of_ne_nil hne
    have hd : d.isDigit = true := by
      obtain ⟨e, digits, hdigits⟩ := exists_cons_of_ne_nil (Str.decimal_ne_nil r.code)
      rw [hbytes, hdigits, cons_append, cons_prefix_cons] at hfront
      exact hfront.1 ▸ Str.isDigit_of_mem_decimal (hdigits ▸ mem_cons_self)
    have hmem : d ∈ (Istream.mk (d :: readbuf) false).getline.1 :=
      Istream.mem_getline_of_head (by rintro rfl; exact absurd hd (by decide))
    intro hblank
    rw [trimRight, rdropWhile_eq_nil_iff] at hblank
    have hspace := hblank d hmem
    rw [Str.isSpace_of_isDigit hd] at hspace
    exact absurd hspace (by decide)
  have hloop : checkLoop c 1 [] ⟨readbuf, false⟩ = some ⟨.protocolError, [], _⟩ :=
    checkLoop_of_other rfl hdigit (hnone ' ' (by decide)) (hnone '-' (by decide))
  rw [checkSmtpResponse_eq hloop]
  exact ⟨rfl, rfl⟩

theorem hasResponse_bytes : hasResponse r.bytes = true := by
  have hblank : ∀ front rest : Str, '\n' ∈ rest → hasResponse (front ++ ' ' :: rest) = true := by
    intro front rest hrest
    rw [hasResponse, dropWhile_append]
    split
    · simpa using hrest
    · simpa using .inr hrest
  rw [bytes_eq, ← append_assoc]
  exact hblank _ _ (by simp [crlf])

/-- What is asked of a read and the check after it: success exactly for the expected code, every text passed on in order, and nothing left in the buffer. -/
def ReadsRight (c : Nat) (segs : List Str) : Prop :=
  ∃ checked, readResponse c segs = some checked ∧ (checked.ec.failed = false ↔ r.code = c) ∧
    checked.texts = r.texts ++ [r.last] ∧ checked.readbuf = []

/-- A read and the check after it are right exactly when the code is the expected one, no text ends in a blank or holds a `NUL`, the last text is not empty, and no piece with more than the end of the last line is still to come once the pieces before it hold a blank and a line feed. -/
theorem readsRight_iff (c : Nat) {segs : List Str} (hsegs : segs.flatten = r.bytes) :
    r.ReadsRight c segs ↔
      r.code = c ∧ (∀ text ∈ r.texts, Plain text) ∧ Plain r.last ∧ r.last ≠ [] ∧
        ∀ pre post, segs = pre ++ post → hasResponse pre.flatten = true → post.flatten <:+ crlf := by
  have hwhole : hasResponse ([] ++ segs.flatten) = true := by
    rw [nil_append, hsegs, r.hasResponse_bytes]
  obtain ⟨readbuf, rest, hread⟩ := readUntil_isSome hwhole
  obtain ⟨hdone, pre, hpre, hbuf⟩ := readUntil_eq_some hread
  have hbytes : readbuf ++ rest.flatten = r.bytes := by
    rw [append_flatten_of_readUntil hread, nil_append, hsegs]
  have hrest : (∀ pre post, segs = pre ++ post → hasResponse pre.flatten = true → post.flatten <:+ crlf) ↔
      rest.flatten <:+ crlf := by
    constructor
    · intro h
      exact h pre rest hpre (by simpa [hbuf] using hdone)
    · intro h pre post hsplit hfirst
      obtain ⟨more, hmore⟩ := rest_longest_of_readUntil hread hsplit (by simpa using hfirst)
      refine List.IsSuffix.trans ⟨more.flatten, ?_⟩ h
      rw [← flatten_append, hmore]
  have hresponse : readResponse c segs = some (checkSmtpResponse c readbuf) := by
    rw [readResponse, hread, Option.map_some]
  rw [hrest]
  constructor
  · rintro ⟨checked, hchecked, hec, htexts, hleft⟩
    obtain rfl := Option.some.inj (hresponse.symm.trans hchecked)
    by_cases hcode : r.code = c
    · subst hcode
      refine ⟨rfl, (r.check_right_iff hbytes).mp ?_⟩
      rcases r.check_front ⟨rest.flatten, hbytes⟩ with herror | ⟨front, _, _, _, hseen⟩
      · have hsuccess := hec.mpr rfl
        rw [herror] at hsuccess
        exact absurd hsuccess (by decide)
      · rw [hseen] at htexts ⊢
        rw [← htexts]
    · have hne : readbuf ≠ [] := by
        rintro rfl
        exact absurd hdone (by decide)
      rw [(r.check_other_code hcode hne ⟨rest.flatten, hbytes⟩).2] at htexts
      exact absurd htexts.symm (by simp)
  · rintro ⟨rfl, hright⟩
    rw [(r.check_right_iff hbytes).mpr hright] at hresponse
    exact ⟨_, hresponse, by simp [ErrorCode.errcSuccess, ErrorCode.failed], rfl, rfl⟩

end Reply

def sizeReply : Reply := ⟨250, ["SIZE".toList], "ok".toList, by decide, by decide⟩

theorem readsRight_of_sizeReply :
    ["250-SI".toList, "ZE\r\n250 o".toList, "k\r\n".toList].flatten = sizeReply.bytes ∧
      sizeReply.ReadsRight 250 ["250-SI".toList, "ZE\r\n250 o".toList, "k\r\n".toList] := by
  have hsegs : ["250-SI".toList, "ZE\r\n250 o".toList, "k\r\n".toList].flatten = sizeReply.bytes := by decide
  refine ⟨hsegs, (sizeReply.readsRight_iff 250 hsegs).mpr ⟨rfl, ?_, ?_, by decide, ?_⟩⟩
  · intro text htext
    obtain rfl := mem_singleton.mp htext
    exact ⟨by decide, by decide⟩
  · exact ⟨by decide, by decide⟩
  · intro pre post hsplit hdone
    match pre, hsplit with
    | [], _ => exact absurd hdone (by decide)
    | [_], hsplit =>
      obtain ⟨rfl, _⟩ := cons.inj hsplit
      exact absurd hdone (by decide)
    | [_, _], hsplit =>
      obtain ⟨rfl, rfl, _⟩ : _ = "250-SI".toList ∧ _ = "ZE\r\n250 o".toList ∧ _ := by simpa using hsplit.symm
      exact absurd hdone (by decide)
    | _ :: _ :: _ :: pre, hsplit =>
      obtain ⟨_, _, _, rfl, rfl⟩ : _ ∧ _ ∧ _ ∧ pre = [] ∧ post = [] := by simpa using hsplit.symm
      exact nil_suffix

def blankReply : Reply := ⟨250, ["a b".toList], "ok".toList, by decide, by decide⟩

/-- The two lines arrive one after the other. The blank in the first one ends the read, and the check finds no last line. -/
theorem expected_reply_refused :
    ["250-a b\r\n".toList, "250 ok\r\n".toList].flatten = blankReply.bytes ∧
      readResponse 250 ["250-a b\r\n".toList, "250 ok\r\n".toList] =
        some ⟨.protocolError, ["a b".toList], []⟩ ∧
      ¬ blankReply.ReadsRight 250 ["250-a b\r\n".toList, "250 ok\r\n".toList] := by
  have hread : readResponse 250 ["250-a b\r\n".toList, "250 ok\r\n".toList] =
      some ⟨.protocolError, ["a b".toList], []⟩ := by decide
  refine ⟨by decide, hread, ?_⟩
  rintro ⟨checked, hchecked, hec, _⟩
  obtain rfl := Option.some.inj (hread.symm.trans hchecked)
  exact absurd (hec.mpr rfl) (by decide)

end Smtp

end Avbot
