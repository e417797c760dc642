import Avbot.Http.Percent
import Avbot.Lib.Sqlite
import Avbot.Rpc.Server

/-!
# The statement behind `/search`

`avlog_do_search` puts the query into the text of an SQL statement, between `"%` and `%"`. It has gone through `unescape_path` before: `%22` becomes a quote and `%00` the end of the text.
-/

namespace Avbot.Rpc

open List Lexer Sqlite

def selectText : Str := "select date,channel,nick,message,rowid from avlog where channel=:c and message like ".toList

def orderText : Str := " order  by strftime(`date`) DESC".toList

def searchQuery (q : Str) : Str :=
  selectText ++ "\"%".toList ++ (Http.unescapePath q).2 ++ "%\"".toList ++ orderText

def searchStatement (q : Str) : Str := Str.cStr (searchQuery q)

/-- The statement has the tokens that it has without a query, but for the content of the literal after `like`. -/
def SameStatement (q : Str) : Prop :=
  ∃ front raw raw' back, front.getLast? = some "like".toList ∧
    tokens (searchStatement []) = front ++ literal raw :: back ∧ tokens (searchStatement q) = front ++ literal raw' :: back

def selectLexemes : List Str :=
  ["select", " ", "date", ",", "channel", ",", "nick", ",", "message", ",", "rowid", " ", "from", " ", "avlog", " ", "where",
    " ", "channel", "=", ":c", " ", "and", " ", "message", " ", "like", " "].map String.toList

def selectTokens : List Str := selectLexemes.filter fun w => ! discarded w

def orderTokens : List Str := ["order", "by", "strftime", "(", "`date`", ")", "DESC"].map String.toList

theorem lexed_selectLexemes (rest : Str) : Lexed extent selectLexemes ('"' :: rest) := by
  repeat' first | exact trivial | refine ⟨⟨_, _, rfl, rfl⟩, ?_⟩

theorem flatten_selectLexemes : selectLexemes.flatten = selectText := by
  -- the literal is compared as a string: its list of characters takes the kernel ten times as long
  calc
    selectLexemes.flatten = (String.ofList selectLexemes.flatten).toList := String.toList_ofList.symm
    _ = selectText := congrArg String.toList rfl

theorem tokens_select (rest : Str) : tokens (selectText ++ '"' :: rest) = selectTokens ++ tokens ('"' :: rest) := by
  rw [tokens, ← flatten_selectLexemes, lexemes_append_of_lexed (lexed_selectLexemes rest), filter_append]
  rfl

theorem tokens_order : tokens orderText = orderTokens := by decide

variable {raw rest : Str}

theorem tokens_literal (hrest : rest.head? ≠ some '"') : tokens (literal raw ++ rest) = literal raw :: tokens rest := by
  rw [tokens, lexemes_append_of_begins (begins_literal hrest), filter_cons_of_pos (by rfl)]
  rfl

theorem literal_notMem {ws : List Str} (hws : ∀ w ∈ ws, w.head? ≠ some '"') (raw : Str) : literal raw ∉ ws :=
  fun hmem => hws _ hmem rfl

theorem literal_notMem_select (raw : Str) : literal raw ∉ selectTokens := literal_notMem (by decide) raw

theorem literal_notMem_order (raw : Str) : literal raw ∉ orderTokens := literal_notMem (by decide) raw

variable {q : Str}

theorem searchQuery_eq (q : Str) :
    searchQuery q = (selectText ++ ['"', '%']) ++ ((Http.unescapePath q).2 ++ '%' :: '"' :: orderText) := by
  simp [searchQuery]

theorem nul_notMem_select : '\x00' ∉ selectText ++ ['"', '%'] := by
  rw [← flatten_selectLexemes]
  decide

theorem nul_notMem_order : '\x00' ∉ '%' :: '"' :: orderText := by decide

theorem searchStatement_eq (hnul : '\x00' ∉ (Http.unescapePath q).2) :
    searchStatement q = selectText ++ '"' :: '%' :: ((Http.unescapePath q).2 ++ '%' :: '"' :: orderText) := by
  rw [searchStatement, searchQuery_eq, Str.cStr_append_of_not_mem nul_notMem_select, Str.cStr_append_of_not_mem hnul,
    Str.cStr_eq_self_iff.mpr nul_notMem_order, append_assoc]
  rfl

theorem searchStatement_of_nul (hnul : '\x00' ∈ (Http.unescapePath q).2) :
    searchStatement q = selectText ++ '"' :: '%' :: Str.cStr (Http.unescapePath q).2 := by
  rw [searchStatement, searchQuery_eq, Str.cStr_append_of_not_mem nul_notMem_select, Str.cStr_append_of_mem hnul,
    append_assoc]
  rfl

theorem tokens_doubled (raw : Str) :
    tokens (selectText ++ '"' :: '%' :: (doubled '"' raw ++ '%' :: '"' :: orderText)) =
      selectTokens ++ literal ('%' :: (raw ++ ['%'])) :: orderTokens := by
  have hliteral : '"' :: '%' :: (doubled '"' raw ++ '%' :: '"' :: orderText) =
      literal ('%' :: (raw ++ ['%'])) ++ orderText := by
    simp [literal, doubled]
  rw [tokens_select, hliteral, tokens_literal (by decide), tokens_order]

theorem tokens_single (hrest : rest.head? ≠ some '"') :
    tokens (selectText ++ '"' :: '%' :: (doubled '"' raw ++ '"' :: rest)) =
      selectTokens ++ literal ('%' :: raw) :: tokens rest := by
  have hliteral : '"' :: '%' :: (doubled '"' raw ++ '"' :: rest) = literal ('%' :: raw) ++ rest := by
    simp [literal, doubled]
  rw [tokens_select, hliteral, tokens_literal hrest]

theorem tokens_unclosed (raw : Str) :
    tokens (selectText ++ '"' :: '%' :: doubled '"' raw) = selectTokens ++ ['"' :: '%' :: doubled '"' raw] := by
  have hliteral : '"' :: '%' :: doubled '"' raw = '"' :: doubled '"' ('%' :: raw) := by simp [doubled]
  rw [tokens_select, hliteral, tokens, lexemes_unclosed]
  rfl

theorem sameStatement_iff :
    SameStatement q ↔ ∃ raw, tokens (searchStatement q) = selectTokens ++ literal raw :: orderTokens := by
  have hempty : tokens (searchStatement []) = selectTokens ++ literal "%%".toList :: orderTokens := by
    rw [searchStatement_eq (by simp [Http.unescapePath])]
    exact tokens_doubled []
  constructor
  · rintro ⟨front, raw, raw', back, -, hfirst, hsecond⟩
    rw [hempty] at hfirst
    obtain ⟨rfl, -, rfl⟩ :=
      (append_cons_inj_of_notMem (literal_notMem_select raw) (literal_notMem_order raw)).mp hfirst
    exact ⟨raw', hsecond⟩
  · rintro ⟨raw', hsecond⟩
    exact ⟨selectTokens, "%%".toList, raw', orderTokens, by decide, hempty, hsecond⟩

theorem plain_orderTokens : ∀ w ∈ orderTokens, Plain w := by
  have hall : ∀ w ∈ orderTokens, w.head?.any isPlainStart = true := by decide
  exact fun w hw => .inr (hall w hw)

theorem tokens_append_order_iff (rest : Str) :
    tokens (rest ++ '%' :: '"' :: orderText) = orderTokens ↔ Hides orderTokens rest :=
  tokens_append_eq_iff plain_orderTokens (by decide) rfl (by decide) (by decide) (by decide)

def KeepsToLiteral (escaped : Str) : Prop := '\x00' ∉ escaped ∧ ∃ raw, escaped = doubled '"' raw

/-- The query ends the literal, goes on with the tokens of the rest of the statement, and makes the real rest disappear behind a NUL or in a comment. -/
def RewritesStatement (escaped : Str) : Prop :=
  ∃ raw rest, Str.cStr escaped = doubled '"' raw ++ '"' :: rest ∧ rest.head? ≠ some '"' ∧
    (('\x00' ∈ escaped ∧ tokens rest = orderTokens) ∨ ('\x00' ∉ escaped ∧ Hides orderTokens rest))

theorem exists_literal_iff (hsplit : Str.cStr (Http.unescapePath q).2 = doubled '"' raw ++ '"' :: rest)
    (hrest : rest.head? ≠ some '"') :
    (∃ raw', tokens (searchStatement q) = selectTokens ++ literal raw' :: orderTokens) ↔
      ('\x00' ∈ (Http.unescapePath q).2 ∧ tokens rest = orderTokens) ∨
        ('\x00' ∉ (Http.unescapePath q).2 ∧ Hides orderTokens rest) := by
  have hback (back : List Str) : (∃ raw', selectTokens ++ literal ('%' :: raw) :: back =
      selectTokens ++ literal raw' :: orderTokens) ↔ back = orderTokens := by
    constructor
    · rintro ⟨raw', heq⟩
      exact (List.cons.inj (append_cancel_left heq)).2
    · rintro rfl
      exact ⟨_, rfl⟩
  by_cases hnul : '\x00' ∈ (Http.unescapePath q).2
  · rw [searchStatement_of_nul hnul, hsplit, tokens_single hrest, hback]
    simp [hnul]
  · have hmore : (rest ++ '%' :: '"' :: orderText).head? ≠ some '"' := by
      cases rest with
      | nil => decide
      | cons c rest => exact hrest
    rw [Str.cStr_eq_self_iff.mpr hnul] at hsplit
    rw [searchStatement_eq hnul, hsplit, append_assoc, cons_append, tokens_single hmore, hback,
      tokens_append_order_iff, ← hsplit]
    simp [hnul]

/-- A query leaves the statement as it is if it keeps to the literal. Otherwise it would have to write the rest of the statement itself. -/
theorem sameStatement_iff_keeps_or_rewrites (q : Str) :
    SameStatement q ↔ KeepsToLiteral (Http.unescapePath q).2 ∨ RewritesStatement (Http.unescapePath q).2 := by
  rw [sameStatement_iff]
  constructor
  · rintro ⟨raw', htokens⟩
    rcases doubled_or_single '"' (Str.cStr (Http.unescapePath q).2) with ⟨raw, hdoubled⟩ | ⟨raw, rest, hsplit, hrest⟩
    · left
      have hnul : '\x00' ∉ (Http.unescapePath q).2 := by
        -- the literal would not be closed, and nothing would come after it
        intro hnul
        rw [searchStatement_of_nul hnul, hdoubled, tokens_unclosed] at htokens
        cases (List.cons.inj (append_cancel_left htokens)).2
      exact ⟨hnul, raw, (Str.cStr_eq_self_iff.mpr hnul).symm.trans hdoubled⟩
    · exact .inr ⟨raw, rest, hsplit, hrest, (exists_literal_iff hsplit hrest).mp ⟨raw', htokens⟩⟩
  · rintro (⟨hnul, raw, hdoubled⟩ | ⟨raw, rest, hsplit, hrest, hrewrites⟩)
    · exact ⟨_, by rw [searchStatement_eq hnul, hdoubled, tokens_doubled]⟩
    · exact (exists_literal_iff hsplit hrest).mpr hrewrites

/-- With this request the statement gets a condition that is always true. -/
theorem not_sameStatement_of_quote :
    serveGet "/search?channel=a&q=%22or%201--&date=".toList [] =
        ([.search "a".toList "%22or%201--".toList []], .returned) ∧
      tokens (searchStatement "%22or%201--".toList) = selectTokens ++ ["\"%\"", "or", "1"].map String.toList ∧
      ¬ SameStatement "%22or%201--".toList := by
  have hquery : (Http.unescapePath "%22or%201--".toList).2 = doubled '"' [] ++ '"' :: "or 1--".toList := by decide
  have htokens : tokens (searchStatement "%22or%201--".toList) = selectTokens ++ ["\"%\"", "or", "1"].map String.toList := by
    rw [searchStatement_eq (by rw [hquery]; decide), hquery, append_assoc, cons_append, tokens_single (by decide)]
    exact congrArg (fun back => selectTokens ++ literal ['%'] :: back) (by decide)
  refine ⟨by decide, htokens, ?_⟩
  intro hsame
  obtain ⟨raw, hraw⟩ := sameStatement_iff.mp hsame
  rw [htokens] at hraw
  have hback : [(['o', 'r'] : Str), ['1']] = orderTokens := (List.cons.inj (append_cancel_left hraw)).2
  exact absurd hback (by decide)

end Avbot.Rpc
