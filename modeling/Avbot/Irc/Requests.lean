import Avbot.Irc.Client
import Avbot.Lib.Words

/-!
# Whose words a line of the server carries

`process_request` tells the lines of the server apart by their text. It looks for "Nickname is already in use." anywhere in the line, and its expression for a message of a user lets the name of the user contain blanks.
-/

namespace Avbot

open List Words

theorem Str.isSome_find?_iff {pat s : Str} : (Str.find? pat s).isSome = true ↔ pat <:+: s := by
  induction s with
  | nil =>
    rw [Str.find?, infix_nil]
    split
    · simpa
    · simpa
  | cons c s ih =>
    rw [Str.find?, infix_cons_iff, ← ih, ← isPrefixOf_iff_prefix]
    split
    · simp [*]
    · simp [*]

namespace IrcRequests

open IrcClient (nickInUse processLine sendCommand)

def privmsgLine (whom locate target text : Str) : Str :=
  ':' :: (whom ++ '!' :: (locate ++ ' ' :: ("PRIVMSG".toList ++ ' ' :: (target ++ ' ' :: ':' :: text))))

/-- A message of a user: the nick and `user@host` before the command, the target and the text after it. -/
structure UserLine (nick user host target text line : Str) : Prop where
  line : line = privmsgLine nick (user ++ '@' :: host) target text
  nick : '!' ∉ nick ∧ ' ' ∉ nick
  locate : ' ' ∉ user ++ '@' :: host
  target : ' ' ∉ target

def Privmsglike (line : Str) : Prop :=
  ∃ whom locate target text, line = privmsgLine whom locate target text ∧ whom ≠ [] ∧ '!' ∉ whom ∧
    locate ≠ [] ∧ ' ' ∉ locate ∧ target ≠ [] ∧ ' ' ∉ target

def commandWord (line : Str) : Str :=
  let rest := if line.head? = some ':' then (line.dropWhile (· ≠ ' ')).dropWhile (· = ' ') else line
  rest.takeWhile (· ≠ ' ')

def answer (c : IrcClient) (line rest : Str) : IrcClient :=
  { c with response := line ++ Str.crlf ++ rest }.processRequest (line.length + 2)

/-- A message of a user is passed on as it is and has no other effect, and no line with another command is taken for one. -/
def TakesWell (c : IrcClient) (line rest : Str) : Prop :=
  (∀ nick user host target text, UserLine nick user host target text line →
    (answer c line rest).cb = c.cb ++ [⟨nick, target, user ++ '@' :: host, text⟩] ∧ (answer c line rest).user = c.user ∧
      (answer c line rest).ircCommandSendQueue = c.ircCommandSendQueue ∧ (answer c line rest).posted = c.posted) ∧
  ((¬ ∃ nick user host target text, UserLine nick user host target text line) →
    commandWord line ≠ "PRIVMSG".toList → (answer c line rest).cb = c.cb)

/-- The text of a user does not contain the phrase of the server, and the line of another command does not look like a message. -/
def Unambiguous (line : Str) : Prop :=
  (∀ nick user host target text, UserLine nick user host target text line →
    nick ≠ [] ∧ target ≠ [] ∧ ¬ nickInUse <:+: text) ∧
  (commandWord line ≠ "PRIVMSG".toList → nickInUse <:+: line ∨ ¬ Privmsglike line)

variable {line nick user host target text : Str} {m : IrcMsg}

theorem matchPrivmsg_eq_some_iff :
    matchPrivmsg line = some m ↔ line = privmsgLine m.whom m.locate m.fromRoom m.msg ∧ m.whom ≠ [] ∧ '!' ∉ m.whom ∧
      m.locate ≠ [] ∧ ' ' ∉ m.locate ∧ m.fromRoom ≠ [] ∧ ' ' ∉ m.fromRoom := by
  obtain ⟨whom, fromRoom, locate, msg⟩ := m
  constructor
  · intro hmatch
    simp only [matchPrivmsg, bind, Option.bind_eq_some_iff] at hmatch
    obtain ⟨r₁, h₁, r₂, h₂, r₃, h₃, r₄, h₄, hfound⟩ := hmatch
    rw [List.isPrefixOf?_eq_some_iff_append_eq] at h₁
    obtain ⟨e₂, n₂⟩ := cut_iff.mp ⟨rfl, h₂⟩
    obtain ⟨e₃, n₃⟩ := (@cut_iff Char _ ' ' "PRIVMSG ".toList _ _ _).mp ⟨rfl, h₃⟩
    obtain ⟨e₄, n₄⟩ := (@cut_iff Char _ ' ' [':'] _ _ _).mp ⟨rfl, h₄⟩
    split at hfound
    · cases hfound
    · rename_i hne
      rw [not_or, not_or] at hne
      cases hfound
      refine ⟨?_, hne.1, n₂, hne.2.1, n₃, hne.2.2, n₄⟩
      calc line = ':' :: r₁ := h₁.symm
        _ = _ := congrArg (':' :: ·) e₂
        _ = _ := congrArg (fun r => ':' :: (_ ++ '!' :: r)) e₃
        _ = _ := congrArg (fun r => ':' :: (_ ++ '!' :: (_ ++ ' ' :: ("PRIVMSG ".toList ++ r)))) e₄
  · rintro ⟨rfl, hwhom, nwhom, hlocate, nlocate, hfrom, nfrom⟩
    let r₃ := fromRoom ++ ' ' :: ':' :: msg
    let r₂ := locate ++ ' ' :: ("PRIVMSG ".toList ++ r₃)
    have h₂ := ((@cut_iff Char _ '!' [] _ whom r₂).mpr ⟨rfl, nwhom⟩).2
    have h₃ := ((@cut_iff Char _ ' ' "PRIVMSG ".toList _ locate r₃).mpr ⟨rfl, nlocate⟩).2
    have h₄ := ((@cut_iff Char _ ' ' [':'] _ fromRoom msg).mpr ⟨rfl, nfrom⟩).2
    simp only [matchPrivmsg, bind, Option.bind_eq_some_iff]
    refine ⟨whom ++ '!' :: r₂, rfl, r₂, h₂, r₃, h₃, msg, h₄, ?_⟩
    grind [takeWhile_ne_append]

theorem privmsglike_iff : Privmsglike line ↔ ∃ m, matchPrivmsg line = some m := by
  constructor
  · rintro ⟨whom, locate, target, text, hline⟩
    exact ⟨⟨whom, target, locate, text⟩, matchPrivmsg_eq_some_iff.mpr hline⟩
  · rintro ⟨m, hmatch⟩
    exact ⟨m.whom, m.locate, m.fromRoom, m.msg, matchPrivmsg_eq_some_iff.mp hmatch⟩

theorem UserLine.cut (hline : UserLine nick user host target text line) :
    line = ':' :: (nick ++ '!' :: (user ++ '@' :: host)) ++ ' ' :: ("PRIVMSG".toList ++ ' ' :: (target ++ ' ' :: ':' :: text)) ∧
      ' ' ∉ ':' :: (nick ++ '!' :: (user ++ '@' :: host)) := by
  constructor
  · rw [hline.line, privmsgLine]
    simp
  · have hlocate := hline.locate
    simp only [mem_append, mem_cons, not_or] at hlocate
    simp [hline.nick.2, hlocate]

theorem not_prefix_of_ne {a b : Char} {s t : Str} (hne : a ≠ b) : ¬ a :: s <+: b :: t :=
  fun hprefix => hne (cons_prefix_cons.mp hprefix).1

theorem nickInUse_infix_iff (hline : UserLine nick user host target text line) :
    nickInUse <:+: line ↔ nickInUse <:+: text := by
  have hphrase : nickInUse = "Nickname".toList ++ ' ' :: "is already in use.".toList := rfl
  obtain ⟨hwords, hsource⟩ := hline.cut
  have hsecond : ¬ "is already in use.".toList <+: "PRIVMSG".toList ++ ' ' :: (target ++ ' ' :: ':' :: text) :=
    not_prefix_of_ne (show 'i' ≠ 'P' by decide)
  have hthird : ¬ "Nickname".toList <:+ "PRIVMSG".toList := by decide
  have hfourth : ¬ "is already in use.".toList <+: ':' :: text := not_prefix_of_ne (show 'i' ≠ ':' by decide)
  have hfirst : ¬ nickInUse <+: ':' :: text := not_prefix_of_ne (show 'N' ≠ ':' by decide)
  calc nickInUse <:+: line
      ↔ nickInUse <:+: "PRIVMSG".toList ++ ' ' :: (target ++ ' ' :: ':' :: text) := by
        rw [hwords, hphrase, cons_append_infix_iff (by decide) hsource, or_iff_right fun h => hsecond h.2]
    _ ↔ nickInUse <:+: target ++ ' ' :: ':' :: text := by
        rw [hphrase, cons_append_infix_iff (by decide) (by decide), or_iff_right fun h => hthird h.1]
    _ ↔ nickInUse <:+: ':' :: text := by
        rw [hphrase, cons_append_infix_iff (by decide) hline.target, or_iff_right fun h => hfourth h.2]
    _ ↔ nickInUse <:+: text := by
        rw [infix_cons_iff, or_iff_right hfirst]

theorem commandWord_of_userLine (hline : UserLine nick user host target text line) :
    commandWord line = "PRIVMSG".toList := by
  obtain ⟨hwords, hsource⟩ := hline.cut
  have hstart : line.head? = some ':' := by rw [hline.line]; rfl
  rw [commandWord, if_pos hstart, hwords, dropWhile_ne_append hsource]
  exact takeWhile_ne_append (show ' ' ∉ "PRIVMSG".toList by decide)

variable (c : IrcClient)

theorem answer_eq (line rest : Str) : answer c line rest = { c with response := rest }.processLine line := by
  have htake : (line ++ Str.crlf ++ rest).take (line.length + 2) = line ++ Str.crlf := by
    rw [append_assoc, take_length_add_append]
    rfl
  have hdrop : (line ++ Str.crlf ++ rest).drop (line.length + 2) = rest := by
    rw [append_assoc, drop_length_add_append]
    rfl
  simp only [answer, IrcClient.processRequest, htake, hdrop, Nat.add_sub_cancel, take_left]

theorem sendCommands_keeps (cmds : List Str) (c : IrcClient) :
    (cmds.foldl sendCommand c).cb = c.cb ∧ (cmds.foldl sendCommand c).user = c.user := by
  induction cmds generalizing c with
  | nil => exact ⟨rfl, rfl⟩
  | cons cmd cmds ih => exact ih (c.sendCommand cmd)

theorem processLine_of_nickInUse (hphrase : nickInUse <:+: line) :
    (c.processLine line).cb = c.cb ∧ (c.processLine line).user = c.user ++ ['_'] := by
  have hkeeps := sendCommands_keeps c.joinQueue { c with user := c.user ++ ['_'] }.sendNick
  rw [processLine, if_pos (Str.isSome_find?_iff.mpr hphrase)]
  exact hkeeps

theorem processLine_of_matchPrivmsg (hphrase : ¬ nickInUse <:+: line)
    (hmatch : matchPrivmsg line = some m) : c.processLine line = { c with cb := c.cb ++ [m], cRetryCuont := 0 } := by
  have hping : matchPing line = none := by
    rw [(matchPrivmsg_eq_some_iff.mp hmatch).1]
    rfl
  rw [processLine, if_neg fun h => hphrase (Str.isSome_find?_iff.mp h), hping, hmatch]

theorem cb_processLine_of_none (hmatch : matchPrivmsg line = none) : (c.processLine line).cb = c.cb := by
  by_cases hphrase : nickInUse <:+: line
  · exact (processLine_of_nickInUse c hphrase).1
  · rw [processLine, if_neg fun h => hphrase (Str.isSome_find?_iff.mp h), hmatch]
    cases matchPing line with
    | some word => rfl
    | none => rfl

theorem cb_processLine_iff (line : Str) :
    (c.processLine line).cb = c.cb ↔ nickInUse <:+: line ∨ ¬ Privmsglike line := by
  rw [privmsglike_iff, not_exists]
  by_cases hphrase : nickInUse <:+: line
  · exact iff_of_true (processLine_of_nickInUse c hphrase).1 (.inl hphrase)
  · cases hmatch : matchPrivmsg line with
    | none => exact iff_of_true (cb_processLine_of_none c hmatch) (.inr fun m h => by cases h)
    | some m =>
      rw [processLine_of_matchPrivmsg c hphrase hmatch]
      simp [hphrase]

theorem passed_on_iff (hline : UserLine nick user host target text line) :
    ((c.processLine line).cb = c.cb ++ [⟨nick, target, user ++ '@' :: host, text⟩] ∧ (c.processLine line).user = c.user ∧
      (c.processLine line).ircCommandSendQueue = c.ircCommandSendQueue ∧ (c.processLine line).posted = c.posted) ↔
    nick ≠ [] ∧ target ≠ [] ∧ ¬ nickInUse <:+: text := by
  rw [← nickInUse_infix_iff hline]
  constructor
  · intro hpassed
    have hphrase : ¬ nickInUse <:+: line := by
      intro hphrase
      have huser := (processLine_of_nickInUse c hphrase).2.symm.trans hpassed.2.1
      simp at huser
    cases hmatch : matchPrivmsg line with
    | none =>
      have hcb := (cb_processLine_of_none c hmatch).symm.trans hpassed.1
      simp at hcb
    | some m =>
      rw [processLine_of_matchPrivmsg c hphrase hmatch] at hpassed
      obtain rfl : m = ⟨nick, target, user ++ '@' :: host, text⟩ := by simpa using hpassed.1
      obtain ⟨-, hnick, -, -, -, htarget, -⟩ := matchPrivmsg_eq_some_iff.mp hmatch
      exact ⟨hnick, htarget, hphrase⟩
  · intro ⟨hnick, htarget, hphrase⟩
    have hmatch : matchPrivmsg line = some ⟨nick, target, user ++ '@' :: host, text⟩ :=
      matchPrivmsg_eq_some_iff.mpr ⟨hline.line, hnick, hline.nick.1, by simp, hline.locate, htarget, hline.target⟩
    rw [processLine_of_matchPrivmsg c hphrase hmatch]
    exact ⟨rfl, rfl, rfl, rfl⟩

/-- A line is taken for what it is exactly when nothing in it can be taken for something else. -/
theorem takesWell_iff (c : IrcClient) (line rest : Str) : TakesWell c line rest ↔ Unambiguous line := by
  unfold TakesWell Unambiguous
  rw [answer_eq]
  apply and_congr
  · constructor
    · grind [passed_on_iff]
    · grind [passed_on_iff]
  · constructor
    · grind [commandWord_of_userLine, cb_processLine_iff]
    · intro hother _ hcommand
      exact (cb_processLine_iff _ line).mpr (hother hcommand)

/-- The text of a user changes the nick of the client and is not passed on, and a notice of the server is passed on as the words of a user. -/
theorem quoted_phrase_and_notice_mistaken :
    let c := IrcClient.new ['b'] [] [] 0
    let quoted := privmsgLine ['a'] ['u', '@', 'h'] ['#', 'r'] nickInUse
    let notice := ":server NOTICE me :x!y PRIVMSG z :hi".toList
    (answer c quoted []).cb = [] ∧ (answer c quoted []).user = ['b', '_'] ∧ ¬ TakesWell c quoted [] ∧
      (answer c notice []).cb = [⟨"server NOTICE me :x".toList, ['z'], ['y'], ['h', 'i']⟩] ∧ ¬ TakesWell c notice [] := by
  intro c quoted notice
  have hline : UserLine ['a'] ['u'] ['h'] ['#', 'r'] nickInUse quoted := ⟨rfl, by decide, by decide, by decide⟩
  have hcommand : commandWord notice ≠ "PRIVMSG".toList := by decide
  have hcb : (answer c notice []).cb = [⟨"server NOTICE me :x".toList, ['z'], ['y'], ['h', 'i']⟩] := by decide
  have huser : (answer c quoted []).user = ['b', '_'] := by decide
  refine ⟨by decide, huser, ?_, hcb, ?_⟩
  · intro htakes
    have hkept := (htakes.1 _ _ _ _ _ hline).2.1
    rw [huser] at hkept
    exact absurd hkept (by decide)
  · intro htakes
    have hother : ¬ ∃ nick user host target text, UserLine nick user host target text notice := by
      grind [commandWord_of_userLine]
    have hkept := htakes.2 hother hcommand
    rw [hcb] at hkept
    cases hkept

end IrcRequests

end Avbot
