import Avbot.Mail.Pop3
import Avbot.Base.StringAlgo
import Avbot.Lib.EventMachine
import Avbot.Lib.SegmentedInput
import Avbot.Lib.Words

/-!
# The answer to `list`

The first line of the answer is read with `async_read_until`, and only its first word is taken from the buffer. One read follows whose bytes are committed; those of all later reads are not. The loop takes the words of the buffer in pairs and so forgets the lines.
-/

namespace Avbot

open List Option SegmentedInput Words EventMachine
open Str (crlf isSpace)

namespace Istream

variable {buf w : Str} {ws : List Str}

theorem readWord_of_eof {s : Istream} (heof : s.eof = true) : s.readWord = ([], s) := by
  rw [readWord, if_pos heof]

theorem readWord_of_words_nil (hwords : words isSpace buf = []) :
    (Istream.mk buf false).readWord = ([], ⟨[], true⟩) := by
  have hdrop : buf.dropWhile isSpace = [] := dropWhile_eq_nil_iff.mpr (words_eq_nil_iff.mp hwords)
  simp [readWord, hdrop]

theorem readWord_of_words_cons (hwords : words isSpace buf = w :: ws) :
    ∃ left, (Istream.mk buf false).readWord = (w, ⟨left, left.isEmpty⟩) ∧ words isSpace left = ws ∧ w ≠ [] := by
  rw [← words_dropWhile] at hwords
  cases hrest : buf.dropWhile isSpace with
  | nil => simp [hrest] at hwords
  | cons c rest =>
    have hc : isSpace c = false := by
      have hhead := head_dropWhile_not isSpace (l := buf) (by simp [hrest])
      simpa [hrest] using hhead
    rw [hrest, words_of_head hc, cons.injEq] at hwords
    refine ⟨_, ?_, hwords.2, ?_⟩
    · rw [readWord, if_neg (by simp), ← hwords.1]
      simp only [hrest]
    · rw [← hwords.1, takeWhile_cons_of_pos (by simp [hc])]
      exact cons_ne_nil _ _

end Istream

namespace Pop3

/-- What the loop makes of the words of a buffer: a list once it comes to a dot, and nothing if the words run out before. -/
def scan : List Str → Option (List Str)
  | [] => none
  | [status] => if status = ['.'] then some [] else none
  | status :: _ :: ws => if status = ['.'] then some [status] else (scan ws).map (status :: ·)

section ListWords

variable {n : Nat} {maillist ids : List Str} {buf : Str} {inbuffer : Istream} {ended : Bool}

theorem listLoop_eq (hloop : listLoop n maillist ⟨buf, false⟩ = some (ids, inbuffer, ended)) :
    (∃ got, scan (words isSpace buf) = some got ∧ ids = maillist ++ got ∧ ended = true) ∨
      (scan (words isSpace buf) = none ∧ inbuffer.buf = [] ∧ ended = false) := by
  induction n generalizing maillist buf with
  | zero => simp [listLoop] at hloop
  | succ n ih =>
    match hwords : words isSpace buf with
    | [] =>
      have hfirst := Istream.readWord_of_words_nil hwords
      obtain ⟨rfl, rfl, rfl⟩ : maillist = ids ∧ ⟨[], true⟩ = inbuffer ∧ false = ended := by
        simpa [listLoop, hfirst, Istream.readWord_of_eof] using hloop
      exact .inr ⟨rfl, rfl, rfl⟩
    | [w] =>
      obtain ⟨left, hfirst, hleft, _⟩ := Istream.readWord_of_words_cons hwords
      have hsecond : (Istream.mk left left.isEmpty).readWord = ([], ⟨[], true⟩) := by
        cases left with
        | nil => exact Istream.readWord_of_eof rfl
        | cons c left => exact Istream.readWord_of_words_nil hleft
      by_cases hdot : w = ['.']
      · obtain ⟨rfl, rfl, rfl⟩ : maillist = ids ∧ ⟨[], true⟩ = inbuffer ∧ true = ended := by
          simpa [listLoop, hfirst, hsecond, hdot] using hloop
        exact .inl ⟨[], by simp [scan, hdot], by simp, rfl⟩
      · obtain ⟨rfl, rfl, rfl⟩ : maillist = ids ∧ ⟨[], true⟩ = inbuffer ∧ false = ended := by
          simpa [listLoop, hfirst, hsecond, hdot] using hloop
        exact .inr ⟨by simp [scan, hdot], rfl, rfl⟩
    | w :: l :: ws =>
      obtain ⟨left, hfirst, hleft, _⟩ := Istream.readWord_of_words_cons hwords
      obtain ⟨left', hsecond, hleft', hl⟩ := Istream.readWord_of_words_cons hleft
      have hopen : left.isEmpty = false := by
        cases left with
        | nil => simp at hleft
        | cons c left => rfl
      by_cases hdot : w = ['.']
      · obtain ⟨rfl, rfl, rfl⟩ : maillist ++ [w] = ids ∧ ⟨left', left'.isEmpty⟩ = inbuffer ∧ true = ended := by
          simpa [listLoop, hfirst, hopen, hsecond, hdot, hl] using hloop
        exact .inl ⟨[w], by simp [scan, hdot], rfl, rfl⟩
      · cases left' with
        | nil =>
          -- the length was cut off by the end of the buffer
          obtain ⟨rfl, rfl, rfl⟩ : maillist ++ [w] = ids ∧ ⟨[], true⟩ = inbuffer ∧ false = ended := by
            simpa [listLoop, hfirst, hopen, hsecond, hdot, hl] using hloop
          rw [words_nil] at hleft'
          exact .inr ⟨by simp [scan, hdot, ← hleft'], rfl, rfl⟩
        | cons c left' =>
          have hnext : listLoop n (maillist ++ [w]) ⟨c :: left', false⟩ = some (ids, inbuffer, ended) := by
            simpa [listLoop, hfirst, hopen, hsecond, hdot, hl] using hloop
          rcases ih hnext with ⟨got, hgot, hids, hended⟩ | ⟨hnone, hbuf, hended⟩
          · rw [hleft'] at hgot
            exact .inl ⟨w :: got, by simp [scan, hdot, hgot], by simp [hids], hended⟩
          · rw [hleft'] at hnone
            exact .inr ⟨by simp [scan, hdot, hnone], hbuf, hended⟩

theorem listWords_eq (hwords : listWords maillist buf = (ids, inbuffer, ended)) :
    (∃ got, scan (words isSpace buf) = some got ∧ ids = maillist ++ got ∧ ended = true) ∨
      (scan (words isSpace buf) = none ∧ inbuffer.buf = [] ∧ ended = false) := by
  have hloop : listLoop (buf.length + 1) maillist ⟨buf, false⟩ = some (listWords maillist buf) :=
    (some_get _).symm
  rw [hwords] at hloop
  exact listLoop_eq hloop

end ListWords

theorem scan_eq_some {ws got : List Str} (hscan : scan ws = some got) (hdot : ['.'] ∉ got) :
    ws.getLast? = some ['.'] ∧ ws.length = 2 * got.length + 1 := by
  induction ws using scan.induct generalizing got with
  | case1 => simp [scan] at hscan
  | case2 => simp_all [scan]
  | case3 status hstatus => simp [scan, hstatus] at hscan
  | case4 l ws =>
    rw [scan, if_pos rfl, some.injEq] at hscan
    exact absurd (by simp [← hscan]) hdot
  | case5 status l ws hstatus ih =>
    rw [scan, if_neg hstatus] at hscan
    obtain ⟨more, hmore, rfl⟩ := map_eq_some_iff.mp hscan
    obtain ⟨hlast, hlength⟩ := ih hmore fun h => hdot (mem_cons_of_mem _ h)
    refine ⟨?_, ?_⟩
    · rw [getLast?_cons, getLast?_cons, hlast]
      rfl
    · simp only [length_cons, hlength]
      omega

def IsNumber (s : Str) : Prop := s ≠ [] ∧ ∀ c ∈ s, c.isDigit = true

/-- An answer to `list`: what its first line says after `+OK`, and the id and the size of each mail. -/
structure ListAnswer where
  text : Str
  mails : List (Str × Str)
  text_separated : ∀ c ∈ text.head?, isSpace c = true
  text_one_line : '\n' ∉ text
  mails_numbers : ∀ m ∈ mails, IsNumber m.1 ∧ IsNumber m.2

def mailLine (m : Str × Str) : Str := m.1 ++ ' ' :: m.2 ++ crlf

namespace ListAnswer

variable (a : ListAnswer)

def body : Str := a.mails.flatMap mailLine ++ '.' :: crlf

def bytes : Str := "+OK".toList ++ (a.text ++ crlf ++ a.body)

def ids : List Str := a.mails.map Prod.fst

end ListAnswer

variable {s : Str} {mails : List (Str × Str)}

theorem IsNumber.word (hs : IsNumber s) : ∀ c ∈ s, isSpace c = false :=
  fun c hc => Str.isSpace_of_isDigit (hs.2 c hc)

theorem words_mailLine {m : Str × Str} (hm : IsNumber m.1 ∧ IsNumber m.2) (rest : Str) :
    words isSpace (mailLine m ++ rest) = m.1 :: m.2 :: words isSpace rest := by
  have hline : mailLine m ++ rest = m.1 ++ ' ' :: (m.2 ++ '\r' :: ('\n' :: rest)) := by
    simp [mailLine, crlf]
  rw [hline, words_word_cons hm.1.1 hm.1.word (by decide), words_word_cons hm.2.1 hm.2.word (by decide),
    words_cons (by decide)]

theorem words_mailLines (hmails : ∀ m ∈ mails, IsNumber m.1 ∧ IsNumber m.2) (rest : Str) :
    words isSpace (mails.flatMap mailLine ++ rest) =
      mails.flatMap (fun m => [m.1, m.2]) ++ words isSpace rest := by
  induction mails with
  | nil => rfl
  | cons m mails ih =>
    rw [flatMap_cons, append_assoc, words_mailLine (hmails m (by simp)), ih fun m' hm' => hmails m' (by simp [hm'])]
    rfl

theorem IsNumber.ne_dot (hs : IsNumber s) : s ≠ ['.'] := by
  rintro rfl
  exact absurd (hs.2 '.' (by simp)) (by decide)

theorem scan_mails (hmails : ∀ m ∈ mails, IsNumber m.1 ∧ IsNumber m.2) :
    scan (mails.flatMap (fun m => [m.1, m.2]) ++ [['.']]) = some (mails.map Prod.fst) := by
  induction mails with
  | nil => simp [scan]
  | cons m mails ih =>
    have hdot := (hmails m (by simp)).1.ne_dot
    show scan (m.1 :: m.2 :: (mails.flatMap (fun m => [m.1, m.2]) ++ [['.']])) = _
    rw [scan, if_neg hdot, ih fun m' hm' => hmails m' (by simp [hm'])]
    rfl

theorem dot_not_mem_mailLines (hmails : ∀ m ∈ mails, IsNumber m.1 ∧ IsNumber m.2) : '.' ∉ mails.flatMap mailLine := by
  intro hmem
  obtain ⟨m, hm, hdot⟩ := mem_flatMap.mp hmem
  have hcases : '.' ∈ m.1 ∨ '.' ∈ m.2 := by simpa [mailLine, crlf] using hdot
  rcases hcases with h | h
  · exact absurd ((hmails m hm).1.2 _ h) (by decide)
  · exact absurd ((hmails m hm).2.2 _ h) (by decide)

namespace ListAnswer

variable (a : ListAnswer)

theorem words_text (more : Str) :
    words isSpace (a.text ++ crlf ++ more) = words isSpace a.text ++ words isSpace more := by
  have hline : a.text ++ crlf ++ more = a.text ++ '\r' :: ('\n' :: more) := by simp [crlf]
  rw [hline, words_append_cons (by decide), words_cons (by decide)]

variable {missing more : Str}

theorem words_body {front : Str} (hend : front ++ missing = crlf) :
    words isSpace (a.mails.flatMap mailLine ++ '.' :: front) =
      a.mails.flatMap (fun m => [m.1, m.2]) ++ [['.']] := by
  rw [words_mailLines a.mails_numbers]
  congr 1
  match front, hend with
  | [], _ => exact words_single (by simp) (by decide)
  | [c], hend =>
    obtain ⟨rfl, _⟩ : c = '\r' ∧ missing = ['\n'] := by simpa [crlf] using hend
    rfl
  | [c, d], hend =>
    obtain ⟨rfl, rfl, _⟩ : c = '\r' ∧ d = '\n' ∧ missing = [] := by simpa [crlf] using hend
    rfl
  | _ :: _ :: _ :: _, hend => simp [crlf] at hend

theorem words_ne_nil (hmore : more ≠ []) (hbody : more ++ missing = a.body) : words isSpace more ≠ [] := by
  intro hnil
  have hblank := words_eq_nil_iff.mp hnil
  obtain ⟨c, more, rfl⟩ := exists_cons_of_ne_nil hmore
  have hspace := hblank c (by simp)
  cases hmails : a.mails with
  | nil =>
    obtain ⟨rfl, _⟩ : c = '.' ∧ more ++ missing = crlf := by simpa [body, hmails] using hbody
    exact absurd hspace (by decide)
  | cons m mails =>
    have hnumber := (a.mails_numbers m (by simp [hmails])).1
    obtain ⟨d, id, hid⟩ := exists_cons_of_ne_nil hnumber.1
    have hhead : c = d := by
      rw [body, hmails, flatMap_cons, mailLine, hid] at hbody
      exact (cons.inj hbody).1
    rw [hhead, hnumber.word d (by simp [hid])] at hspace
    exact absurd hspace (by simp)

/-- The loop finds the ids exactly when the rest of the first line is blank and nothing but the end of the last line is missing. -/
theorem scan_iff (hmore : more ≠ []) (hbody : more ++ missing = a.body) :
    scan (words isSpace (a.text ++ crlf ++ more)) = some a.ids ↔
      (∀ c ∈ a.text, isSpace c = true) ∧ missing <:+ crlf := by
  rw [words_text]
  constructor
  · intro hscan
    have hids : ['.'] ∉ a.ids := by
      intro hmem
      obtain ⟨m, hm, hdot⟩ := mem_map.mp hmem
      exact (a.mails_numbers m hm).1.ne_dot hdot
    obtain ⟨hlast, hlength⟩ := scan_eq_some hscan hids
    -- the last word is one of the lines, and it is the dot
    have hmem : ['.'] ∈ words isSpace more := by
      rw [getLast?_append_of_ne_nil _ (a.words_ne_nil hmore hbody)] at hlast
      exact mem_of_getLast? hlast
    have hdot : '.' ∈ more := mem_of_mem_words hmem (by simp)
    rcases append_eq_append_iff.mp hbody with ⟨lines, hlines, _⟩ | ⟨front, rfl, hfront⟩
    · exact absurd (by simp [hlines, hdot]) (dot_not_mem_mailLines a.mails_numbers)
    · cases front with
      | nil => exact absurd (by simpa using hdot) (dot_not_mem_mailLines a.mails_numbers)
      | cons c front =>
        obtain ⟨rfl, hend⟩ : '.' = c ∧ crlf = front ++ missing := by simpa using hfront
        refine ⟨?_, front, hend.symm⟩
        rw [a.words_body hend.symm, length_append, length_append, ids, length_map] at hlength
        have hpairs : (a.mails.flatMap fun m => [m.1, m.2]).length = 2 * a.mails.length := by
          simp [length_flatMap, Nat.mul_comm]
        rw [hpairs, length_singleton] at hlength
        exact words_eq_nil_iff.mp (length_eq_zero_iff.mp (by omega))
  · rintro ⟨htext, front, hend⟩
    have hmore : more = a.mails.flatMap mailLine ++ '.' :: front := by
      have hwhole : more ++ missing = (a.mails.flatMap mailLine ++ '.' :: front) ++ missing := by
        rw [hbody, body, ← hend]
        simp
      exact append_cancel_right hwhole
    rw [words_eq_nil_iff.mpr htext, nil_append, hmore, a.words_body hend, scan_mails a.mails_numbers, ids]

theorem first_eq {first : Str} (hbytes : first ++ missing = a.bytes) (hline : '\n' ∈ first) :
    ∃ more, first = "+OK".toList ++ (a.text ++ crlf ++ more) ∧ more ++ missing = a.body := by
  have hsplit : a.bytes = ("+OK".toList ++ a.text ++ ['\r']) ++ '\n' :: a.body := by simp [bytes, crlf]
  have honeLine : '\n' ∉ "+OK".toList ++ a.text ++ ['\r'] := by simp [a.text_one_line]
  rw [hsplit] at hbytes
  rcases append_eq_append_iff.mp hbytes with ⟨line, hfirst, _⟩ | ⟨more, rfl, hmore⟩
  · exact absurd (by rw [hfirst]; simp [hline]) honeLine
  · cases more with
    | nil => exact absurd (by simpa using hline) honeLine
    | cons c more =>
      obtain ⟨rfl, hbody⟩ : '\n' = c ∧ a.body = more ++ missing := by simpa using hmore
      exact ⟨more, by simp [crlf], hbody.symm⟩

end ListAnswer

def LeftListLoop (p : Pop3) : Prop := p.point = .retr ∨ p.point = .quit

/-- The coroutine leaves the loop with these ids. `async_read_until` puts the pieces of the first line together, every further piece is one read. -/
def ListLoopEnds (imf : Str → Except Exn MailContent) (p : Pop3) (segs : List Str) (ids : List Str) : Prop :=
  ∃ first rest n p', readUntil (·.contains '\n') [] segs = some (first, rest) ∧
    run (step imf) p (.read false first :: (rest.take n).map (.read false)) = some p' ∧
      p'.LeftListLoop ∧ p'.maillist = ids

section Coroutine

variable {imf : Str → Except Exn MailContent} {p p' : Pop3}

theorem leftListLoop_nextMail (p : Pop3) : p.nextMail.LeftListLoop ∧ p.nextMail.maillist = p.maillist := by
  rw [nextMail]
  split
  · exact ⟨.inr rfl, rfl⟩
  · exact ⟨.inl rfl, rfl⟩

theorem listMails_cases (p : Pop3) :
    (∃ got, scan (words isSpace p.mReadbuf) = some got ∧ p.listMails.LeftListLoop ∧
        p.listMails.maillist = p.maillist ++ got) ∨
      (scan (words isSpace p.mReadbuf) = none ∧ p.listMails.point = .listMore ∧ p.listMails.mReadbuf = []) := by
  rw [listMails]
  split
  case h_1 maillist inbuffer hwords =>
    rcases listWords_eq hwords with ⟨got, hgot, rfl, _⟩ | ⟨_, _, hended⟩
    · exact .inl ⟨got, hgot, leftListLoop_nextMail _⟩
    · exact absurd hended (by simp)
  case h_2 maillist inbuffer hwords =>
    rcases listWords_eq hwords with ⟨_, _, _, hended⟩ | ⟨hnone, hbuf, _⟩
    · exact absurd hended (by simp)
    · exact .inr ⟨hnone, rfl, hbuf⟩

theorem listMore_step {e : Pop3Event} (hwait : p.point = .listMore ∧ p.mReadbuf = [])
    (hstep : p.step imf e = some p') : p'.point = .listMore ∧ p'.mReadbuf = [] := by
  obtain ⟨hpoint, hbuf⟩ := hwait
  cases e with
  | read failed bytes =>
    obtain rfl : p.listMails = p' := by simpa [step, onRead, hpoint] using hstep
    rcases p.listMails_cases with ⟨got, hgot, _⟩ | ⟨_, hmore⟩
    · simp [hbuf, scan] at hgot
    · exact hmore
  | _ => simp [step, onWritten, hpoint] at hstep

theorem not_leftListLoop_of_listMore {es : List Pop3Event} (hwait : p.point = .listMore ∧ p.mReadbuf = [])
    (hrun : run (step imf) p es = some p') : ¬ p'.LeftListLoop := by
  have hstill : p'.point = .listMore ∧ p'.mReadbuf = [] :=
    invariant_of_run (fun _ _ _ hs he => listMore_step hs he) hwait hrun
  simp [LeftListLoop, hstill.1]

theorem step_of_leftListLoop (hleft : p.LeftListLoop) (failed : Bool) (bytes : Str) :
    p.step imf (.read failed bytes) = none := by
  rcases hleft with hpoint | hpoint <;> simp [step, onRead, hpoint]

theorem step_listAnswer {rest : Str} (hpoint : p.point = .listAnswer) (hbuf : p.mReadbuf = [])
    (hrest : ∃ c l, rest = c :: l ∧ isSpace c = true) :
    p.step imf (.read false ("+OK".toList ++ rest)) =
      some { p with mReadbuf := rest, maillist := [], point := .listFirst } := by
  obtain ⟨c, l, rfl, hc⟩ := hrest
  have hword : (Istream.mk (p.mReadbuf ++ ("+OK".toList ++ c :: l)) false).readWord =
      ("+OK".toList, ⟨c :: l, false⟩) := by
    rw [hbuf]
    have hplus : isSpace '+' = false := by decide
    have hO : isSpace 'O' = false := by decide
    have hK : isSpace 'K' = false := by decide
    simp [Istream.readWord, hplus, hO, hK, hc]
  simp only [step, onRead, hpoint, onOk, readStatus, hword]
  simp

theorem run_listFirst_iff {rest : List Str} {ids : List Str} (hpoint : p.point = .listFirst) (hlist : p.maillist = []) :
    (∃ n p', run (step imf) p ((rest.take n).map (.read false)) = some p' ∧ p'.LeftListLoop ∧ p'.maillist = ids) ↔
      ∃ seg post, rest = seg :: post ∧ scan (words isSpace (p.mReadbuf ++ seg)) = some ids := by
  have hstep : ∀ seg, p.step imf (.read false seg) = some { p with mReadbuf := p.mReadbuf ++ seg }.listMails := by
    intro seg
    simp [step, onRead, hpoint]
  constructor
  · rintro ⟨n, p', hrun, hleft, rfl⟩
    have hstill : (rest.take n).map (.read false) = ([] : List Pop3Event) → False := by
      intro hnil
      obtain rfl : p = p' := by simpa [hnil] using hrun
      simp [LeftListLoop, hpoint] at hleft
    obtain _ | n := n
    · exact (hstill rfl).elim
    obtain _ | ⟨seg, post⟩ := rest
    · exact (hstill rfl).elim
    refine ⟨seg, post, rfl, ?_⟩
    rw [take_succ_cons, map_cons, run_cons, hstep, bind_some] at hrun
    rcases listMails_cases { p with mReadbuf := p.mReadbuf ++ seg } with ⟨got, hgot, hleft', hids⟩ | ⟨_, hwait⟩
    · -- no read is enabled outside the loop, so this was the last one
      cases hpost : (post.take n).map (Pop3Event.read false) with
      | nil =>
        rw [hpost, run_nil, some.injEq] at hrun
        rw [hgot, ← hrun, hids, hlist, nil_append]
      | cons e es =>
        obtain ⟨bytes, _, rfl⟩ : ∃ bytes ∈ post.take n, Pop3Event.read false bytes = e := by
          have hmem : e ∈ (post.take n).map (Pop3Event.read false) := by simp [hpost]
          exact mem_map.mp hmem
        rw [hpost, run_cons, step_of_leftListLoop hleft'] at hrun
        simp at hrun
    · exact absurd hleft (not_leftListLoop_of_listMore hwait hrun)
  · rintro ⟨seg, post, rfl, hscan⟩
    rcases listMails_cases { p with mReadbuf := p.mReadbuf ++ seg } with ⟨got, hgot, hleft, hids⟩ | ⟨hnone, _⟩
    · obtain rfl : got = ids := some.inj (hgot.symm.trans hscan)
      refine ⟨1, _, ?_, hleft, by rw [hids, hlist, nil_append]⟩
      rw [take_succ_cons, take_zero, map_cons, map_nil, run_cons, hstep, bind_some, run_nil]
    · exact absurd (hnone.symm.trans hscan) (by simp)

variable (imf) in
theorem run_listAnswer_iff (a : ListAnswer) (hpoint : p.point = .listAnswer) (hbuf : p.mReadbuf = [])
    {pre rest : List Str} (hsegs : (pre ++ rest).flatten = a.bytes) (hpieces : [] ∉ rest) (hline : '\n' ∈ pre.flatten) :
    (∃ n p', run (step imf) p (.read false pre.flatten :: (rest.take n).map (.read false)) = some p' ∧
        p'.LeftListLoop ∧ p'.maillist = a.ids) ↔
      ∃ seg post, rest = seg :: post ∧ (∀ c ∈ a.text, isSpace c = true) ∧ post.flatten <:+ crlf := by
  rw [flatten_append] at hsegs
  obtain ⟨more, hfirst, hbody⟩ := a.first_eq hsegs hline
  have hhead : ∃ c l, a.text ++ crlf ++ more = c :: l ∧ isSpace c = true := by
    cases htext : a.text with
    | nil => exact ⟨'\r', '\n' :: more, rfl, by decide⟩
    | cons c text => exact ⟨c, text ++ crlf ++ more, rfl, a.text_separated c (by simp [htext])⟩
  simp only [run_cons, hfirst, step_listAnswer hpoint hbuf hhead, bind_some]
  rw [run_listFirst_iff rfl rfl]
  refine exists_congr fun seg => exists_congr fun post => and_congr_right fun hrest => ?_
  have hmore : more ++ seg ≠ [] := by
    intro hnil
    exact hpieces (by simp [hrest, (append_eq_nil_iff.mp hnil).2])
  rw [append_assoc _ more seg]
  exact a.scan_iff hmore (by rw [← hbody, hrest, flatten_cons, append_assoc])

end Coroutine

/-- The loop ends with the ids of the answer exactly if its first line says nothing but `+OK` and the read after the one that completes this line brings everything else. -/
theorem listLoopEnds_iff (imf : Str → Except Exn MailContent) (a : ListAnswer) {p : Pop3}
    (hpoint : p.point = .listAnswer) (hbuf : p.mReadbuf = []) {segs : List Str} (hsegs : segs.flatten = a.bytes)
    (hpieces : [] ∉ segs) :
    p.ListLoopEnds imf segs a.ids ↔
      (∀ c ∈ a.text, isSpace c = true) ∧
        ∃ pre seg post, segs = pre ++ seg :: post ∧ '\n' ∈ pre.flatten ∧ '\n' ∉ pre.dropLast.flatten ∧
          post.flatten <:+ crlf := by
  have hread : ∀ first rest, readUntil (·.contains '\n') [] segs = some (first, rest) ↔
      ∃ pre, segs = pre ++ rest ∧ first = pre.flatten ∧ '\n' ∈ first ∧ '\n' ∉ pre.dropLast.flatten := by
    intro first rest
    rw [readUntil_eq_some_iff (by intro l m hl; simp_all) (by simp)]
    simp
  constructor
  · rintro ⟨first, rest, n, p', hfirst, hends⟩
    obtain ⟨pre, rfl, rfl, hline, hshort⟩ := (hread first rest).mp hfirst
    obtain ⟨seg, post, rfl, htext, hpost⟩ :=
      (run_listAnswer_iff imf a hpoint hbuf hsegs (by simp_all) hline).mp ⟨n, p', hends⟩
    exact ⟨htext, pre, seg, post, rfl, hline, hshort, hpost⟩
  · rintro ⟨htext, pre, seg, post, rfl, hline, hshort, hpost⟩
    obtain ⟨n, p', hends⟩ :=
      (run_listAnswer_iff imf a hpoint hbuf hsegs (by simp_all) hline).mpr ⟨seg, post, rfl, htext, hpost⟩
    exact ⟨pre.flatten, seg :: post, n, p', (hread _ _).mpr ⟨pre, rfl, rfl, hline, hshort⟩, hends⟩

def twoMails : ListAnswer :=
  ⟨[], [("1".toList, "320".toList), ("2".toList, "99".toList)], by simp, by simp, by
    simp only [IsNumber, forall_mem_cons]
    decide⟩

def awaitingList : Pop3 := { Pop3.new "a@b".toList "pw".toList [] with point := .listAnswer }

def noMail : Str → Except Exn MailContent := fun _ => .error .badLexicalCast

theorem listLoopEnds_of_twoMails :
    awaitingList.ListLoopEnds noMail ["+O".toList, "K\r\n1 3".toList, "20\r\n2 99\r\n.\r".toList, "\n".toList]
      ["1".toList, "2".toList] :=
  (listLoopEnds_iff noMail twoMails rfl rfl rfl (by decide)).mpr
    ⟨by decide, ["+O".toList, "K\r\n1 3".toList], "20\r\n2 99\r\n.\r".toList, ["\n".toList],
      rfl, by decide, by decide, by decide⟩

/-- The whole answer comes in one piece: the coroutine waits for more before it looks at the list. -/
theorem listLoop_waits_on_whole_answer :
    ¬ awaitingList.ListLoopEnds noMail ["+OK\r\n1 320\r\n2 99\r\n.\r\n".toList] ["1".toList, "2".toList] := by
  rintro ⟨first, rest, n, p', hread, hrun, hleft, _⟩
  obtain ⟨rfl, rfl⟩ : "+OK\r\n1 320\r\n2 99\r\n.\r\n".toList = first ∧ [] = rest := by
    have hall : readUntil (·.contains '\n') [] ["+OK\r\n1 320\r\n2 99\r\n.\r\n".toList] =
        some ("+OK\r\n1 320\r\n2 99\r\n.\r\n".toList, []) := by decide
    rw [hall] at hread
    simpa using hread
  rw [take_nil, map_nil] at hrun
  have hpoint : some p'.point = some .listFirst := by
    rw [← map_some, ← hrun]
    decide
  rw [some.injEq] at hpoint
  simp [LeftListLoop, hpoint] at hleft

end Pop3

end Avbot
