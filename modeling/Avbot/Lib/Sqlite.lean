import Avbot.Lib.Lexer
import Mathlib.Data.List.TakeWhile

/-!
# The tokenizer of SQLite

How far each token of an SQL text goes, as `sqlite3GetToken` of SQLite 3.8 decides it from the first character. A comment that is not closed goes to the end of the text.
-/

namespace Sqlite

open List Lexer

/-- Letters, digits, `_`, `$` and the bytes outside ASCII. -/
def isIdChar (c : Char) : Bool := c.isAlphanum || c == '_' || c == '$' || decide (0x80 ≤ c.toNat)

def isSpace (c : Char) : Bool := c == ' ' || decide (0x09 ≤ c.toNat ∧ c.toNat ≤ 0x0d)

def isSpaceStart (c : Char) : Bool := c == ' ' || c == '\t' || c == '\n' || c == '\x0c' || c == '\r'

def lineExtent : List Char → Nat
  | '-' :: rest => 1 + (rest.takeWhile (· ≠ '\n')).length
  | _ => 0

def closeExtent : List Char → Nat
  | [] => 0
  | c :: rest => if c = '*' ∧ rest.head? = some '/' then 2 else 1 + closeExtent rest

def blockExtent : List Char → Nat
  | '*' :: c :: rest => 1 + closeExtent (c :: rest)
  | _ => 0

def quotedExtent (quote : Char) : List Char → Nat
  | [] => 0
  | [_] => 1
  | c :: d :: rest =>
    if c = quote then if d = quote then 2 + quotedExtent quote rest else 1
    else 1 + quotedExtent quote (d :: rest)

/-- Up to the first `stop`. -/
def stopExtent (stop : Char) (s : List Char) : Nat :=
  (s.takeWhile (· ≠ stop)).length + if s.contains stop then 1 else 0

def exponentLength : List Char → Nat
  | e :: c :: rest =>
    if (e = 'e' ∨ e = 'E') ∧ (c.isDigit ∨ ((c = '+' ∨ c = '-') ∧ rest.head?.any Char.isDigit)) then
      2 + (rest.takeWhile Char.isDigit).length
    else 0
  | _ => 0

def numberLength (s : List Char) : Nat :=
  let digits := (s.takeWhile Char.isDigit).length
  let mantissa :=
    match s.drop digits with
    | '.' :: rest => digits + 1 + (rest.takeWhile Char.isDigit).length
    | _ => digits
  let number := mantissa + exponentLength (s.drop mantissa)
  number + ((s.drop number).takeWhile isIdChar).length

/-- The name of a variable; `named` says that it has a character. -/
def variableExtent : Bool → List Char → Nat
  | _, [] => 0
  | named, [c] => if isIdChar c ∨ (c = '(' ∧ named) then 1 else 0
  | named, c :: d :: rest =>
    if isIdChar c then 1 + variableExtent true (d :: rest)
    else if c = '(' ∧ named then
      let index := ((d :: rest).takeWhile fun c => ! isSpace c && c != ')').length
      1 + index + if ((d :: rest).drop index).head? = some ')' then 1 else 0
    else if c = ':' ∧ d = ':' then 2 + variableExtent named rest
    else 0

def oneOf (cs : List Char) (s : List Char) : Nat := if s.head?.any cs.contains then 1 else 0

/-- The letters but `x`, which can begin a blob. -/
def isWordStart (c : Char) : Bool := c.isAlpha && c != 'x' && c != 'X'

/-- How many characters of the text after `c` belong to the lexeme that begins with `c`. -/
def extent (c : Char) (rest : List Char) : Nat :=
  if isWordStart c then (rest.takeWhile isIdChar).length
  else if isSpaceStart c then (rest.takeWhile isSpace).length
  else
    match c with
    | '-' => lineExtent rest
    | '/' => blockExtent rest
    | '=' => oneOf ['='] rest
    | '<' => oneOf ['=', '>', '<'] rest
    | '>' => oneOf ['=', '>'] rest
    | '!' => 1
    | '|' => oneOf ['|'] rest
    | '\x60' => quotedExtent c rest
    | '\'' => quotedExtent c rest
    | '"' => quotedExtent c rest
    | '.' => if rest.head?.any Char.isDigit then numberLength (c :: rest) - 1 else 0
    | '[' => stopExtent ']' rest
    | '?' => (rest.takeWhile Char.isDigit).length
    | '$' => variableExtent false rest
    | '@' => variableExtent false rest
    | '#' => variableExtent false rest
    | ':' => variableExtent false rest
    | c =>
      if c.isDigit then numberLength (c :: rest) - 1
      else if (c = 'x' ∨ c = 'X') ∧ rest.head? = some '\'' then 1 + stopExtent '\'' rest.tail
      else if isIdChar c then (rest.takeWhile isIdChar).length
      else 0

def discarded : List Char → Bool
  | [] => false
  | c :: w => isSpaceStart c || ((c == '-' || c == '/') && ! w.isEmpty)

def tokens (s : List Char) : List (List Char) := (lexemes extent s).filter fun w => ! discarded w

example : tokens "select `a`,'b''c' from--x\n[d] where e>=:f and/**/1.5e+3 like \"%\"".toList =
    ["select", "`a`", ",", "'b''c'", "from", "[d]", "where", "e", ">=", ":f", "and", "1.5e+3", "like", "\"%\""].map
      String.toList := by decide +kernel

variable {c d x : Char} {w rest rest' : List Char}

theorem extent_word (hc : isWordStart c = true) (rest : List Char) : extent c rest = (rest.takeWhile isIdChar).length :=
  if_pos hc

theorem extent_space (hc : isSpaceStart c = true) (rest : List Char) :
    extent c rest = (rest.takeWhile isSpace).length := by
  have hword : isWordStart c = false := by
    simp only [isSpaceStart, Bool.or_eq_true, beq_iff_eq] at hc
    rcases hc with (((rfl | rfl) | rfl) | rfl) | rfl <;> rfl
  exact (if_neg (by simp [hword])).trans (if_pos hc)

variable {p : Char → Bool} {quote : Char} {ws ts : List (List Char)} {s more u v : List Char}

theorem length_takeWhile_eq_iff :
    ((w ++ d :: rest).takeWhile p).length = w.length ↔ (∀ c ∈ w, p c = true) ∧ p d = false := by
  induction w with
  | nil => cases hd : p d <;> simp [hd]
  | cons c w ih => cases hc : p c <;> simp [hc, ih]

theorem lineExtent_congr (hw : w ≠ []) (hextent : lineExtent (w ++ d :: rest) = w.length) :
    lineExtent (w ++ d :: rest') = w.length := by
  obtain ⟨c, w, rfl⟩ := exists_cons_of_ne_nil hw
  by_cases hc : c = '-'
  · subst hc
    simp only [cons_append, lineExtent, length_cons, Nat.add_comm 1, Nat.add_right_cancel_iff] at hextent ⊢
    exact length_takeWhile_eq_iff.mpr (length_takeWhile_eq_iff.mp hextent)
  · simp [lineExtent, hc] at hextent

theorem closeExtent_cons (hc : ¬ (c = '*' ∧ rest.head? = some '/')) : closeExtent (c :: rest) = 1 + closeExtent rest :=
  if_neg hc

theorem closeExtent_pos (c : Char) (rest : List Char) : 0 < closeExtent (c :: rest) := by
  rw [closeExtent]
  split <;> omega

theorem closeExtent_congr (hextent : closeExtent (w ++ d :: rest) = w.length) :
    closeExtent (w ++ d :: rest') = w.length := by
  have hpos := closeExtent_pos d rest
  induction w with
  | nil =>
    rw [nil_append] at hextent
    simp [hextent] at hpos
  | cons c w ih =>
    cases w with
    | nil =>
      rw [cons_append, nil_append, closeExtent] at hextent
      simp only [length_cons, length_nil] at hextent
      split at hextent <;> omega
    | cons e w =>
      by_cases hclose : c = '*' ∧ e = '/'
      · obtain ⟨rfl, rfl⟩ := hclose
        exact hextent
      · have hcons : ∀ more, closeExtent (c :: e :: w ++ more) = 1 + closeExtent (e :: w ++ more) :=
          fun more => closeExtent_cons (by simpa using hclose)
        rw [hcons, length_cons] at hextent ⊢
        rw [ih (by omega)]
        omega

theorem blockExtent_congr (hw : w ≠ []) (hextent : blockExtent (w ++ d :: rest) = w.length) :
    blockExtent (w ++ d :: rest') = w.length := by
  obtain ⟨c, w, rfl⟩ := exists_cons_of_ne_nil hw
  by_cases hc : c = '*'
  · subst hc
    have hblock : ∀ more, blockExtent ('*' :: w ++ d :: more) = 1 + closeExtent (w ++ d :: more) := by
      intro more
      cases w <;> rfl
    rw [hblock, length_cons] at hextent ⊢
    have hclose : closeExtent (w ++ d :: rest) = w.length := by omega
    rw [closeExtent_congr hclose]
    omega
  · simp [blockExtent, hc] at hextent

theorem quotedExtent_cons (hc : c ≠ quote) : quotedExtent quote (c :: rest) = 1 + quotedExtent quote rest := by
  cases rest with
  | nil => rfl
  | cons d rest => rw [quotedExtent, if_neg hc]

theorem quotedExtent_doubled (quote : Char) (rest : List Char) :
    quotedExtent quote (quote :: quote :: rest) = 2 + quotedExtent quote rest := by
  rw [quotedExtent, if_pos rfl, if_pos rfl]

theorem quotedExtent_closed (hrest : rest.head? ≠ some quote) : quotedExtent quote (quote :: rest) = 1 := by
  cases rest with
  | nil => rfl
  | cons d rest => rw [quotedExtent, if_pos rfl, if_neg (by simpa using hrest)]

theorem quotedExtent_pos (quote c : Char) (rest : List Char) : 0 < quotedExtent quote (c :: rest) := by
  by_cases hc : c = quote
  · subst hc
    by_cases hrest : rest.head? = some c
    · obtain ⟨more, rfl⟩ := head?_eq_some_iff.mp hrest
      rw [quotedExtent_doubled]
      omega
    · rw [quotedExtent_closed hrest]
      exact Nat.one_pos
  · rw [quotedExtent_cons hc]
    omega

theorem quotedExtent_congr (hextent : quotedExtent quote (w ++ d :: rest) = w.length) :
    quotedExtent quote (w ++ d :: rest') = w.length := by
  have hpos := quotedExtent_pos quote d rest
  -- a doubled quote takes two characters at once
  induction hn : w.length using Nat.strongRecOn generalizing w with
  | ind n ih =>
    subst hn
    cases w with
    | nil =>
      rw [nil_append] at hextent
      simp [hextent] at hpos
    | cons c w =>
      by_cases hc : c = quote
      · subst hc
        cases w with
        | nil =>
          by_cases hd : d = c
          · subst hd
            rw [cons_append, nil_append, quotedExtent_doubled, length_singleton] at hextent
            omega
          · exact quotedExtent_closed (by simpa using hd)
        | cons e w =>
          by_cases he : e = c
          · subst he
            simp only [cons_append, quotedExtent_doubled, length_cons] at hextent ih ⊢
            rw [ih w.length (by omega) (by omega) rfl]
            omega
          · rw [cons_append, quotedExtent_closed (by simpa using he)] at hextent
            simp at hextent
      · rw [cons_append, quotedExtent_cons hc, length_cons] at hextent ⊢
        rw [ih w.length (by simp) (by omega) rfl]
        omega

def isPlainStart (c : Char) : Bool := isWordStart c || c == '\x60' || c == '(' || c == ')'

def Plain (w : List Char) : Prop := discarded w = true ∨ w.head?.any isPlainStart = true

theorem extent_congr (hw : Plain (c :: w)) (hextent : extent c (w ++ d :: rest) = w.length) :
    extent c (w ++ d :: rest') = w.length := by
  rcases hw with hdiscarded | hplain
  · simp only [discarded, Bool.or_eq_true, Bool.and_eq_true, beq_iff_eq, Bool.not_eq_true', isEmpty_eq_false_iff]
      at hdiscarded
    rcases hdiscarded with hspace | ⟨rfl | rfl, hne⟩
    · rw [extent_space hspace] at hextent ⊢
      exact length_takeWhile_eq_iff.mpr (length_takeWhile_eq_iff.mp hextent)
    · exact lineExtent_congr hne hextent
    · exact blockExtent_congr hne hextent
  · simp only [head?_cons, Option.any_some, isPlainStart, Bool.or_eq_true, beq_iff_eq] at hplain
    rcases hplain with ((hword | rfl) | rfl) | rfl
    · rw [extent_word hword] at hextent ⊢
      exact length_takeWhile_eq_iff.mpr (length_takeWhile_eq_iff.mp hextent)
    · exact quotedExtent_congr hextent
    · exact hextent
    · exact hextent

theorem begins_congr (hplain : Plain w) (hw : Begins extent w (d :: rest)) : Begins extent w (d :: rest') := by
  obtain ⟨c, w', rfl, -⟩ := id hw
  exact begins_cons_iff.mpr (extent_congr hplain (begins_cons_iff.mp hw))

theorem lexed_congr (hplain : ∀ w ∈ ws, Plain w) (hws : Lexed extent ws (d :: rest)) :
    Lexed extent ws (d :: rest') := by
  induction ws with
  | nil => trivial
  | cons w ws ih =>
    obtain ⟨hw, hws⟩ := hws
    refine ⟨?_, ih (fun v hv => hplain v (mem_cons_of_mem _ hv)) hws⟩
    cases hflatten : ws.flatten with
    | nil =>
      rw [hflatten] at hw
      exact begins_congr (hplain w mem_cons_self) hw
    | cons e more =>
      rw [hflatten] at hw
      exact begins_congr (hplain w mem_cons_self) hw

def OpenComment (s : List Char) : Prop :=
  (∃ u, s = '-' :: '-' :: u ∧ '\n' ∉ u) ∨ ∃ u, s = '/' :: '*' :: u ∧ ¬ ['*', '/'] <:+: u

theorem OpenComment.exists_cons (hs : OpenComment s) : ∃ d s', s = d :: s' := by
  rcases hs with ⟨u, rfl, -⟩ | ⟨u, rfl, -⟩
  · exact ⟨_, _, rfl⟩
  · exact ⟨_, _, rfl⟩

theorem OpenComment.discarded_append (hs : OpenComment s) (more : List Char) : discarded (s ++ more) = true := by
  rcases hs with ⟨u, rfl, -⟩ | ⟨u, rfl, -⟩
  · rfl
  · rfl

theorem closeExtent_of_unclosed (hs : ¬ ['*', '/'] <:+: s) : closeExtent s = s.length := by
  induction s with
  | nil => rfl
  | cons c s ih =>
    have hc : ¬ (c = '*' ∧ s.head? = some '/') := by
      rintro ⟨rfl, hhead⟩
      obtain ⟨more, rfl⟩ := head?_eq_some_iff.mp hhead
      exact hs (prefix_append ['*', '/'] more).isInfix
    rw [closeExtent_cons hc, ih fun h => hs (infix_cons h), length_cons]
    omega

theorem closeExtent_of_closed (hs : ['*', '/'] <:+: s) :
    ∃ p r, s = p ++ ['*', '/'] ++ r ∧ closeExtent s = (p ++ ['*', '/']).length := by
  induction s with
  | nil => simp at hs
  | cons c s ih =>
    by_cases hc : c = '*' ∧ s.head? = some '/'
    · obtain ⟨rfl, hhead⟩ := hc
      obtain ⟨more, rfl⟩ := head?_eq_some_iff.mp hhead
      exact ⟨[], more, rfl, rfl⟩
    · rcases infix_cons_iff.mp hs with hfirst | hclosing
      · obtain ⟨more, hmore⟩ := hfirst
        obtain ⟨rfl, rfl⟩ := cons.inj hmore
        exact absurd ⟨rfl, rfl⟩ hc
      · obtain ⟨p, r, rfl, hextent⟩ := ih hclosing
        refine ⟨c :: p, r, rfl, ?_⟩
        rw [closeExtent_cons hc, hextent, cons_append, length_cons]
        omega

theorem closed_of_closed_append (hmore : '/' ∉ more) (hs : ['*', '/'] <:+: s ++ more) : ['*', '/'] <:+: s := by
  obtain ⟨p, r, heq⟩ := hs
  have hsplit : (p ++ ['*']) ++ '/' :: r = s ++ more := by simpa using heq
  rcases append_eq_append_iff.mp hsplit with ⟨between, hs, hrest⟩ | ⟨between, -, hrest⟩
  · cases between with
    | nil => exact absurd (by rw [← nil_append more, ← hrest]; exact mem_cons_self) hmore
    | cons e between =>
      obtain ⟨rfl, -⟩ := cons.inj hrest
      exact ⟨p, between, by rw [hs]; simp⟩
  · exact absurd (by rw [hrest]; simp) hmore

theorem blockExtent_open (hu : ¬ ['*', '/'] <:+: u) (hne : more ≠ []) (hslash : '/' ∉ more) :
    blockExtent ('*' :: (u ++ more)) = 1 + (u ++ more).length := by
  rw [← closeExtent_of_unclosed fun h => hu (closed_of_closed_append hslash h)]
  obtain ⟨e, rest, hcons⟩ := exists_cons_of_ne_nil (append_ne_nil_of_right_ne_nil u hne)
  rw [hcons]
  rfl

theorem lineExtent_open (hu : '\n' ∉ u) (hnewline : '\n' ∉ more) :
    lineExtent ('-' :: (u ++ more)) = 1 + (u ++ more).length := by
  have hline : (u ++ more).takeWhile (· ≠ '\n') = u ++ more := by
    rw [takeWhile_eq_self_iff]
    intro c hc
    have hne : c ≠ '\n' := by
      rintro rfl
      rcases mem_append.mp hc with h | h
      · exact hu h
      · exact hnewline h
    simpa using hne
  rw [lineExtent, hline]

theorem lexemes_openComment (hs : OpenComment s) (hne : more ≠ []) (hnewline : '\n' ∉ more)
    (hslash : '/' ∉ more) : lexemes extent (s ++ more) = [s ++ more] := by
  rcases hs with ⟨u, rfl, hu⟩ | ⟨u, rfl, hu⟩
  · refine lexemes_single ((lineExtent_open hu hnewline).trans ?_)
    exact Nat.add_comm _ _
  · refine lexemes_single ((blockExtent_open hu hne hslash).trans ?_)
    exact Nat.add_comm _ _

theorem isSpace_of_isSpaceStart (hc : isSpaceStart c = true) : isSpace c = true := by
  simp only [isSpaceStart, Bool.or_eq_true, beq_iff_eq] at hc
  rcases hc with (((rfl | rfl) | rfl) | rfl) | rfl <;> rfl

theorem forall_of_take_takeWhile
    (htake : (w ++ more).take ((w ++ more).takeWhile p).length = w) : ∀ c ∈ w, p c = true := by
  rw [← prefix_iff_eq_take.mp ( takeWhile_prefix p)] at htake
  rw [← htake]
  exact fun c hc => mem_takeWhile_imp hc

theorem openComment_of_line (hx : x ≠ '-') (hnewline : '\n' ∉ x :: (v ++ more))
    (htake : ((u ++ x :: v) ++ more).take (lineExtent ((u ++ x :: v) ++ more)) = u ++ x :: v) :
    OpenComment ('-' :: u) ∧ more = [] := by
  cases u with
  | nil => simp [lineExtent, hx] at htake
  | cons e u =>
    obtain rfl : e = '-' := by
      by_contra he
      simp [lineExtent, he] at htake
    have htake' : ((u ++ x :: v) ++ more).take (((u ++ x :: v) ++ more).takeWhile (· ≠ '\n')).length = u ++ x :: v := by
      simp only [cons_append, lineExtent, Nat.add_comm 1, take_succ_cons, cons.injEq, true_and] at htake
      exact htake
    have hline : '\n' ∉ u ++ x :: v := fun h => by simpa using forall_of_take_takeWhile htake' _ h
    refine ⟨.inl ⟨u, rfl, fun h => hline (mem_append_left _ h)⟩, ?_⟩
    have hmore : '\n' ∉ more := fun h => hnewline (mem_cons_of_mem _ (mem_append_right v h))
    rw [cons_append, cons_append, lineExtent_open hline hmore, Nat.add_comm, take_succ_cons,
      take_length, cons_inj_right] at htake
    exact append_right_eq_self.mp htake

theorem openComment_of_block (hx : x ≠ '*') (hslash : '/' ∉ x :: (v ++ more))
    (htake : ((u ++ x :: v) ++ more).take (blockExtent ((u ++ x :: v) ++ more)) = u ++ x :: v) :
    OpenComment ('/' :: u) ∧ more = [] := by
  cases u with
  | nil => simp [blockExtent, hx] at htake
  | cons e u =>
    obtain rfl : e = '*' := by
      by_contra he
      simp [blockExtent, he] at htake
    have hsplit : (u ++ x :: v) ++ more = u ++ x :: (v ++ more) := by simp
    have hblock : blockExtent ('*' :: (u ++ x :: (v ++ more))) = 1 + closeExtent (u ++ x :: (v ++ more)) := by
      cases u <;> rfl
    rw [cons_append, cons_append, hsplit] at htake
    have hopen : ¬ ['*', '/'] <:+: u := by
      intro hclosing
      obtain ⟨p, r, hclosed, hextent⟩ :=
        closeExtent_of_closed (hclosing.trans (prefix_append u (x :: (v ++ more))).isInfix)
      rw [hblock, hextent, Nat.add_comm, take_succ_cons, cons_inj_right, hclosed, take_left] at htake
      -- the comment would end with a slash
      have hlast := congrArg getLast? htake
      rw [getLast?_append_of_ne_nil _ (by simp), getLast?_append_of_ne_nil _ (by simp)] at hlast
      have hmem : '/' ∈ x :: v := mem_of_getLast? hlast.symm
      exact hslash (by simpa using .imp id .inl (mem_cons.mp hmem))
    refine ⟨.inr ⟨u, rfl, hopen⟩, ?_⟩
    rw [blockExtent_open hopen (by simp) hslash, Nat.add_comm, take_succ_cons, take_length, ← hsplit,
      cons_inj_right] at htake
    exact append_right_eq_self.mp htake

theorem openComment_of_begins (hdiscarded : discarded (u ++ x :: v) = true)
    (hbegins : Begins extent (u ++ x :: v) more) (hspace : isSpace x = false) (hx : x ≠ '-' ∧ x ≠ '*')
    (hnewline : '\n' ∉ x :: (v ++ more)) (hslash : '/' ∉ x :: (v ++ more)) : OpenComment u ∧ more = [] := by
  obtain ⟨c, w, hcons, htake⟩ := hbegins
  rw [hcons] at hdiscarded
  simp only [discarded, Bool.or_eq_true, Bool.and_eq_true, beq_iff_eq] at hdiscarded
  cases u with
  | nil =>
    obtain ⟨rfl, rfl⟩ := cons.inj hcons
    rcases hdiscarded with hstart | ⟨rfl | rfl, -⟩
    · rw [isSpace_of_isSpaceStart hstart] at hspace
      cases hspace
    · exact absurd rfl hx.1
    · exact absurd mem_cons_self hslash
  | cons c' u =>
    obtain ⟨rfl, rfl⟩ := cons.inj hcons
    rcases hdiscarded with hstart | ⟨rfl | rfl, -⟩
    · rw [extent_space hstart] at htake
      have hall := forall_of_take_takeWhile htake x (by simp)
      rw [hspace] at hall
      cases hall
    · exact openComment_of_line hx.1 hnewline htake
    · exact openComment_of_block hx.2 hslash htake

/-- The text has the tokens `ts` and then a comment that hides what follows. -/
def Hides (ts : List (List Char)) (s : List Char) : Prop :=
  ∃ ws comment, s = ws.flatten ++ comment ∧ Lexed extent ws comment ∧ (ws.filter fun w => ! discarded w) = ts ∧
    OpenComment comment

theorem plain_of_filter (hplain : ∀ w ∈ ts, Plain w)
    (hfilter : (ws.filter fun w => ! discarded w) = ts) : ∀ w ∈ ws, Plain w := by
  intro w hw
  cases hdiscarded : discarded w with
  | true => exact .inl hdiscarded
  | false =>
    apply hplain
    rw [← hfilter]
    exact mem_filter.mpr ⟨hw, by simp [hdiscarded]⟩

/-- A text that goes on with a character which none of the tokens `ts` has. That character has to be in a comment, and then everything after it is. -/
theorem tokens_append_eq_iff (hplain : ∀ w ∈ ts, Plain w)
    (hts : ∀ w ∈ ts, x ∉ w) (hspace : isSpace x = false) (hx : x ≠ '-' ∧ x ≠ '*') (hnewline : '\n' ∉ x :: more)
    (hslash : '/' ∉ x :: more) : tokens (s ++ x :: more) = ts ↔ Hides ts s := by
  constructor
  · intro htokens
    obtain ⟨ws, u, v, vs, hlexemes, rfl, rfl⟩ := exists_lexeme_at extent s x more
    rw [tokens, hlexemes] at htokens
    obtain ⟨hfront, hbegins, hvs⟩ := lexed_of_lexemes_cons hlexemes
    have hdiscarded : discarded (u ++ x :: v) = true := by
      by_contra hseen
      have hmem : u ++ x :: v ∈ ts := by
        rw [← htokens]
        exact mem_filter.mpr ⟨by simp, by simpa using hseen⟩
      exact hts _ hmem (by simp)
    obtain ⟨hcomment, hnil⟩ := openComment_of_begins hdiscarded hbegins hspace hx hnewline hslash
    rw [hnil] at hfront hvs
    obtain rfl : [] = vs := hvs
    have hfilter : (ws.filter fun w => ! discarded w) = ts := by
      rw [← htokens, filter_append, filter_singleton, hdiscarded]
      simp
    obtain ⟨d, u, rfl⟩ := hcomment.exists_cons
    exact ⟨ws, d :: u, rfl, lexed_congr (plain_of_filter hplain hfilter) hfront, hfilter, hcomment⟩
  · rintro ⟨ws, comment, rfl, hlexed, hfilter, hcomment⟩
    obtain ⟨d, comment', rfl⟩ := hcomment.exists_cons
    have hlexed' : Lexed extent ws (d :: comment' ++ x :: more) := lexed_congr (plain_of_filter hplain hfilter) hlexed
    rw [tokens, append_assoc, lexemes_append_of_lexed hlexed',
      lexemes_openComment hcomment (cons_ne_nil x more) hnewline hslash, filter_append, hfilter,
      filter_singleton, hcomment.discarded_append]
    simp

def doubled (quote : Char) (raw : List Char) : List Char :=
  raw.flatMap fun c => if c = quote then [quote, quote] else [c]

def literal (raw : List Char) : List Char := '"' :: (doubled '"' raw ++ ['"'])

theorem doubled_quote (quote : Char) (raw : List Char) :
    doubled quote (quote :: raw) = quote :: quote :: doubled quote raw := by simp [doubled]

theorem doubled_cons (hc : c ≠ quote) (raw : List Char) :
    doubled quote (c :: raw) = c :: doubled quote raw := by simp [doubled, hc]

theorem doubled_or_single (quote : Char) (s : List Char) :
    (∃ raw, s = doubled quote raw) ∨ ∃ raw rest, s = doubled quote raw ++ quote :: rest ∧ rest.head? ≠ some quote := by
  induction hn : s.length using Nat.strongRecOn generalizing s with
  | ind n ih =>
    subst hn
    cases s with
    | nil => exact .inl ⟨[], rfl⟩
    | cons c s =>
      by_cases hc : c = quote
      · subst hc
        by_cases hhead : s.head? = some c
        · obtain ⟨s, rfl⟩ := List.head?_eq_some_iff.mp hhead
          rcases ih s.length (by rw [length_cons, length_cons]; omega) s rfl with ⟨raw, rfl⟩ | ⟨raw, rest, rfl, hrest⟩
          · exact .inl ⟨c :: raw, (doubled_quote c raw).symm⟩
          · exact .inr ⟨c :: raw, rest, by rw [doubled_quote]; rfl, hrest⟩
        · exact .inr ⟨[], s, rfl, hhead⟩
      · rcases ih s.length (by simp) s rfl with ⟨raw, rfl⟩ | ⟨raw, rest, rfl, hrest⟩
        · exact .inl ⟨c :: raw, (doubled_cons hc raw).symm⟩
        · exact .inr ⟨c :: raw, rest, by rw [doubled_cons hc]; rfl, hrest⟩

theorem quotedExtent_append (quote : Char) (raw rest : List Char) :
    quotedExtent quote (doubled quote raw ++ rest) = (doubled quote raw).length + quotedExtent quote rest := by
  induction raw with
  | nil => simp [doubled]
  | cons c raw ih =>
    by_cases hc : c = quote
    · subst hc
      rw [doubled_quote, cons_append, cons_append, quotedExtent_doubled, ih, length_cons, length_cons]
      omega
    · rw [doubled_cons hc, cons_append, quotedExtent_cons hc, ih, length_cons]
      omega

theorem begins_literal {raw : List Char} (hrest : rest.head? ≠ some '"') : Begins extent (literal raw) rest := by
  refine ⟨'"', doubled '"' raw ++ ['"'], rfl, ?_⟩
  have hextent : extent '"' (doubled '"' raw ++ ['"'] ++ rest) = (doubled '"' raw ++ ['"']).length := by
    change quotedExtent '"' _ = _
    rw [append_assoc, quotedExtent_append, singleton_append, quotedExtent_closed hrest, length_append, length_singleton]
  rw [hextent, take_left]

theorem lexemes_unclosed (raw : List Char) : lexemes extent ('"' :: doubled '"' raw) = ['"' :: doubled '"' raw] := by
  refine lexemes_single ?_
  have hextent := quotedExtent_append '"' raw []
  rwa [append_nil] at hextent

end Sqlite
