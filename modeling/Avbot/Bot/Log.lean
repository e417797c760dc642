import Avbot.Bot.Callbacks
import Avbot.Lib.Markup

/-!
# The published log

`avbot_log` turns the tree of a message into a line of HTML. The text of a message goes through `html_escape`; the preamble, links, and the names and addresses of pictures do not. The line is kept with the origin of its characters; the string the program builds is its `Markup.erase`.
-/

namespace Avbot

open Markup PropertyTree
open Str (replaceAll)

def htmlEscape (txt : Str) : Str :=
  let txt := replaceAll txt "&".toList "&amp;".toList
  let txt := replaceAll txt "<".toList "&lt;".toList
  let txt := replaceAll txt ">".toList "&gt;".toList
  replaceAll txt " ".toList "&nbsp;".toList

def imageSubdirName (cface : Str) : Str :=
  let cface := replaceAll cface "\x7b".toList []
  let cface := replaceAll cface "\x7d".toList []
  let cface := replaceAll cface "-".toList []
  cface.take 2

def cfaceField (fetchImg : Bool) : String := if fetchImg then "name" else "gchatpicurl"

def logPart (fetchImg : Bool) (v : String × Ptree) : Except Exn Text :=
  if v.1 = "text" then .ok (given (htmlEscape v.2.data))
  else if v.1 = "url" then .ok (format "<a href=\"%s\">%s</a>".toList [v.2.data, v.2.data])
  else if v.1 = "cface" then do
    let value ← getString v.2 [cfaceField fetchImg]
    if fetchImg then return format "<img src=\"../images/%s/%s\" />".toList [imageSubdirName value, value]
    else return format "\t\t<img src=\"%s\" />\r\n".toList [value]
  else if v.1 = "img" then .ok (format "\t\t<img src=\"%s\" />\r\n".toList [v.2.data])
  else .ok []

structure LogRow where
  date : Str
  protocol : Str
  channel : Str
  nick : Str
  message : Str
  deriving DecidableEq

structure AddLog where
  groupid : Str
  msg : Text
  id : Int
  deriving DecidableEq

structure LogOutcome where
  bot : Bot
  row : Option LogRow
  logged : List AddLog
  thrown : Option Exn

def logParts (fetchImg : Bool) : List (String × Ptree) → Except Exn Text
  | [] => .ok []
  | v :: vs => do
    let t ← logPart fetchImg v
    let rest ← logParts fetchImg vs
    return t ++ rest

def linemessage (fetchImg : Bool) (message : Ptree) : Except Exn Text :=
  match message.getChild? ["message"] with
  | none => .error .ptreeBadPath
  | some parts => do
    let line ← logParts fetchImg parts.children
    return given ((message.get? ["preamble"]).getD []) ++ line

def logRow (curtime : Str) (message : Ptree) : LogRow :=
  let protocol := (message.get? ["protocol"]).getD []
  let parts := ((message.getChild? ["message"]).getD default).children
  { date := curtime
    protocol := protocol
    channel := (message.get? ["channel"]).getD []
    nick := if protocol ≠ "rpc".toList then (message.get? ["who", "nick"]).getD [] else []
    message := parts.flatMap fun v => if v.1 = "text" then v.2.data else [] }

def logGroups (channelName : Str) (channelmap : List Str) : List Str :=
  (channelmap.filter fun roomname => roomname.take 3 = "qq:".toList ∧ roomname.drop 3 ≠ channelName).map (·.drop 3)

def avbotLog (curtime : Str) (inserted : Except Exn Int) (fetchImg : Bool) (bot : Bot) (message : Ptree) : LogOutcome :=
  match message.get? ["protocol"] with
  | none => ⟨bot, none, [], some .ptreeBadPath⟩
  | some protocol =>
    if protocol = "mail".toList then ⟨bot, none, [], none⟩
    else
      match linemessage fetchImg message with
      | .error e => ⟨bot, none, [], some e⟩
      | .ok line =>
        let row := logRow curtime message
        if row.channel = [] then ⟨bot, none, [], none⟩
        else
          match inserted with
          | .error e => ⟨bot, some row, [], some e⟩
          | .ok rowid =>
            let (bot, channelmap) := bot.getChannelMap row.channel
            ⟨bot, some row, (row.channel :: logGroups row.channel channelmap).map (⟨·, line, rowid⟩), none⟩

def LogOutcome.Clean (outcome : LogOutcome) : Prop := ∀ call ∈ outcome.logged, NoMarkup call.msg

structure Logged (inserted : Except Exn Int) (fetchImg : Bool) (message : Ptree) : Prop where
  protocol : ∃ protocol, message.get? ["protocol"] = some protocol ∧ protocol ≠ "mail".toList
  parts : ∃ parts, message.getChild? ["message"] = some parts ∧
    ∀ v ∈ parts.children, v.1 = "cface" → ∃ value, v.2.get? [cfaceField fetchImg] = some value
  channel : (message.get? ["channel"]).getD [] ≠ []
  inserted : ∃ rowid, inserted = .ok rowid

def CleanPart (fetchImg : Bool) (v : String × Ptree) : Prop :=
  (v.1 = "url" ∨ v.1 = "img" → Plain v.2.data) ∧
    (v.1 = "cface" → Plain ((v.2.get? [cfaceField fetchImg]).getD []))

def CleanMessage (fetchImg : Bool) (message : Ptree) : Prop :=
  ('<' ∉ (message.get? ["preamble"]).getD [] ∧ '>' ∉ (message.get? ["preamble"]).getD []) ∧
    ∀ v ∈ ((message.getChild? ["message"]).getD default).children, CleanPart fetchImg v

theorem replaceAll_single (s sub : Str) (p : Char) :
    replaceAll s [p] sub = s.flatMap fun c => if c = p then sub else [c] := by
  rw [replaceAll, if_neg (by simp)]
  induction s with
  | nil => rfl
  | cons c s ih =>
    rw [Str.replaceAllFrom, List.flatMap_cons, ← ih]
    grind

variable {c : Char} {vs : List (String × Ptree)}

theorem mem_replaceAll_single {s sub : Str} {p : Char} :
    c ∈ replaceAll s [p] sub ↔ (c ∈ s ∧ c ≠ p) ∨ (p ∈ s ∧ c ∈ sub) := by
  rw [replaceAll_single, List.mem_flatMap]
  grind

theorem not_mem_htmlEscape (txt : Str) : '<' ∉ htmlEscape txt ∧ '>' ∉ htmlEscape txt := by
  constructor <;> simp [htmlEscape, mem_replaceAll_single]

theorem mem_of_mem_imageSubdirName {cface : Str} (hc : c ∈ imageSubdirName cface) : c ∈ cface := by
  have hremoved : ∀ {s : Str} {p : Char}, c ∈ replaceAll s [p] [] → c ∈ s := by
    intro s p hmem
    rcases mem_replaceAll_single.mp hmem with h | h
    · exact h.1
    · simp at h
  exact hremoved (hremoved (hremoved (List.mem_of_mem_take hc)))

theorem noMarkup_link (a : Str) :
    inside false (format "<a href=\"%s\">%s</a>".toList [a, a]) = false ∧
      (NoMarkup (format "<a href=\"%s\">%s</a>".toList [a, a]) ↔ Plain a) := by
  have hformat : format "<a href=\"%s\">%s</a>".toList [a, a] =
      own "<a href=\"".toList ++ given a ++ own "\">".toList ++ (given a ++ own "</a>".toList) := by
    simp [format, own]
  have hend : inside false (own "</a>".toList) = false := by decide
  obtain ⟨hclosed, hattribute⟩ := noMarkup_attribute (s := a) "<a href=\"".toList "\">".toList (by decide)
    (by decide)
  rw [hformat]
  refine ⟨by rw [inside_append, hclosed, inside_append, inside_given, hend], ?_⟩
  rw [noMarkup_append hclosed, hattribute, noMarkup_append (inside_given _ _), noMarkup_given]
  constructor
  · exact fun h => h.1
  · exact fun h => ⟨h, ⟨h.1, h.2.1⟩, noMarkup_own _⟩

theorem noMarkup_image (cface : Str) :
    inside false (format "<img src=\"../images/%s/%s\" />".toList [imageSubdirName cface, cface]) = false ∧
      (NoMarkup (format "<img src=\"../images/%s/%s\" />".toList [imageSubdirName cface, cface]) ↔ Plain cface) := by
  have hformat : format "<img src=\"../images/%s/%s\" />".toList [imageSubdirName cface, cface] =
      own "<img src=\"../images/".toList ++ given (imageSubdirName cface) ++ own "/".toList ++ given cface ++
        own "\" />".toList := by
    simp [format, own]
  obtain ⟨hclosed, hattribute⟩ := noMarkup_attribute₂ (imageSubdirName cface) cface
    "<img src=\"../images/".toList "/".toList "\" />".toList (by decide) (by decide) (by decide)
  rw [hformat]
  refine ⟨hclosed, hattribute.trans ⟨fun h => h.2, fun h => ⟨?_, h⟩⟩⟩
  exact ⟨fun hc => h.1 (mem_of_mem_imageSubdirName hc), fun hc => h.2.1 (mem_of_mem_imageSubdirName hc),
    fun hc => h.2.2 (mem_of_mem_imageSubdirName hc)⟩

theorem noMarkup_picture (url : Str) :
    inside false (format "\t\t<img src=\"%s\" />\r\n".toList [url]) = false ∧
      (NoMarkup (format "\t\t<img src=\"%s\" />\r\n".toList [url]) ↔ Plain url) := by
  have hformat : format "\t\t<img src=\"%s\" />\r\n".toList [url] =
      own "\t\t<img src=\"".toList ++ given url ++ own "\" />\r\n".toList := by
    simp [format, own]
  rw [hformat]
  exact noMarkup_attribute _ _ (by decide) (by decide)

variable {fetchImg : Bool} {v : String × Ptree} {t : Text} {message : Ptree}

theorem noMarkup_logPart (hpart : logPart fetchImg v = .ok t) :
    inside false t = false ∧ (NoMarkup t ↔ CleanPart fetchImg v) := by
  rw [logPart] at hpart
  split at hpart
  case isTrue htext =>
    obtain rfl := Except.ok.inj hpart
    refine ⟨inside_given _ _, ?_⟩
    rw [noMarkup_given]
    exact ⟨fun _ => by simp [CleanPart, htext], fun _ => not_mem_htmlEscape _⟩
  case isFalse htext =>
    split at hpart
    case isTrue hurl =>
      grind [noMarkup_link, CleanPart]
    case isFalse hurl =>
      split at hpart
      case isTrue hcface =>
        have hclean : ∀ value, getString v.2 [cfaceField fetchImg] = .ok value → (Plain value ↔ CleanPart fetchImg v) := by
          intro value hvalue
          rw [getString] at hvalue
          split at hvalue
          · obtain rfl := Except.ok.inj hvalue
            simp [CleanPart, *]
          · simp at hvalue
        cases hvalue : getString v.2 [cfaceField fetchImg] with
        | error e => simp [hvalue, bind, Except.bind] at hpart
        | ok value =>
          simp only [hvalue, bind, Except.bind] at hpart
          split at hpart
          · obtain rfl := Except.ok.inj hpart
            exact ⟨(noMarkup_image _).1, (noMarkup_image _).2.trans (hclean value hvalue)⟩
          · obtain rfl := Except.ok.inj hpart
            exact ⟨(noMarkup_picture _).1, (noMarkup_picture _).2.trans (hclean value hvalue)⟩
      case isFalse hcface =>
        split at hpart
        case isTrue himg =>
          grind [noMarkup_picture, CleanPart]
        case isFalse himg =>
          obtain rfl := Except.ok.inj hpart
          exact ⟨rfl, by simp [CleanPart, NoMarkup, OwnQuotes, hurl, hcface, himg]⟩

theorem logPart_ok_iff :
    (∃ t, logPart fetchImg v = .ok t) ↔ (v.1 = "cface" → ∃ value, v.2.get? [cfaceField fetchImg] = some value) := by
  by_cases hcface : v.1 = "cface"
  · have hpart : logPart fetchImg v = (getString v.2 [cfaceField fetchImg]).bind fun value =>
        if fetchImg then .ok (format "<img src=\"../images/%s/%s\" />".toList [imageSubdirName value, value])
        else .ok (format "\t\t<img src=\"%s\" />\r\n".toList [value]) := by
      rw [logPart, if_neg (by simp [hcface]), if_neg (by simp [hcface]), if_pos hcface]
      rfl
    rw [hpart, getString]
    cases v.2.get? [cfaceField fetchImg] with
    | none => simp [hcface, Except.bind]
    | some value => cases fetchImg <;> simp [Except.bind]
  · simp only [hcface, false_implies, iff_true]
    simp only [logPart, hcface, if_false]
    repeat' split
    all_goals exact ⟨_, rfl⟩

theorem logParts_ok_iff :
    (∃ t, logParts fetchImg vs = .ok t) ↔
      ∀ v ∈ vs, v.1 = "cface" → ∃ value, v.2.get? [cfaceField fetchImg] = some value := by
  induction vs with
  | nil => simp [logParts]
  | cons v vs ih =>
    rw [List.forall_mem_cons, ← ih, ← logPart_ok_iff, logParts]
    cases logPart fetchImg v with
    | error e => simp [bind, Except.bind]
    | ok t => cases logParts fetchImg vs <;> simp [bind, Except.bind, pure, Except.pure]

theorem noMarkup_logParts (hparts : logParts fetchImg vs = .ok t) :
    inside false t = false ∧ (NoMarkup t ↔ ∀ v ∈ vs, CleanPart fetchImg v) := by
  induction vs generalizing t with
  | nil =>
    obtain rfl := Except.ok.inj hparts
    exact ⟨rfl, by simp [NoMarkup, OwnQuotes]⟩
  | cons v vs ih =>
    rw [logParts] at hparts
    cases hv : logPart fetchImg v with
    | error e => simp [hv, bind, Except.bind] at hparts
    | ok tv =>
      cases hvs : logParts fetchImg vs with
      | error e => simp [hv, hvs, bind, Except.bind] at hparts
      | ok rest =>
        obtain rfl : tv ++ rest = t := by
          simpa [hv, hvs, bind, Except.bind, pure, Except.pure] using hparts
        obtain ⟨hclosed, hclean⟩ := noMarkup_logPart hv
        grind [inside_append, noMarkup_append]

theorem linemessage_ok_iff :
    (∃ line, linemessage fetchImg message = .ok line) ↔
      ∃ parts, message.getChild? ["message"] = some parts ∧
        ∀ v ∈ parts.children, v.1 = "cface" → ∃ value, v.2.get? [cfaceField fetchImg] = some value := by
  rw [linemessage]
  cases message.getChild? ["message"] with
  | none => simp
  | some parts =>
    simp only [Option.some.injEq, exists_eq_left', ← logParts_ok_iff]
    cases logParts fetchImg parts.children <;> simp [bind, Except.bind, pure, Except.pure]

theorem noMarkup_linemessage {line : Text} (hline : linemessage fetchImg message = .ok line) :
    NoMarkup line ↔ CleanMessage fetchImg message := by
  rw [linemessage] at hline
  split at hline
  case h_1 => simp at hline
  case h_2 parts hparts =>
    cases ht : logParts fetchImg parts.children with
    | error e => simp [ht, bind, Except.bind] at hline
    | ok t =>
      obtain rfl : given ((message.get? ["preamble"]).getD []) ++ t = line := by
        simpa [ht, bind, Except.bind, pure, Except.pure] using hline
      rw [noMarkup_append (inside_given _ _), noMarkup_given, (noMarkup_logParts ht).2, CleanMessage, hparts,
        Option.getD_some]

variable {curtime : Str} {inserted : Except Exn Int} {bot : Bot}

theorem clean_avbotLog_iff (hlogged : Logged inserted fetchImg message) :
    (avbotLog curtime inserted fetchImg bot message).Clean ↔ CleanMessage fetchImg message := by
  obtain ⟨⟨protocol, hprotocol, hmail⟩, hparts, hchannel, ⟨rowid, rfl⟩⟩ := hlogged
  obtain ⟨line, hline⟩ := linemessage_ok_iff.mpr hparts
  have hrow : (logRow curtime message).channel ≠ [] := hchannel
  rw [avbotLog, hprotocol]
  simp only [hmail, if_false, hline, hrow]
  rw [← noMarkup_linemessage hline]
  constructor
  · intro hclean
    exact hclean ⟨_, line, rowid⟩ List.mem_cons_self
  · intro hclean call hcall
    grind

theorem logged_nil_of_not (hlogged : ¬ Logged inserted fetchImg message) :
    (avbotLog curtime inserted fetchImg bot message).logged = [] := by
  rw [avbotLog]
  split
  case h_1 => rfl
  case h_2 protocol hprotocol =>
    split
    case isTrue => rfl
    case isFalse hmail =>
      split
      case h_1 => rfl
      case h_2 line hline =>
        dsimp only
        split
        case isTrue => rfl
        case isFalse hchannel =>
          split
          case h_1 => rfl
          case h_2 rowid =>
            exact absurd ⟨⟨protocol, hprotocol, hmail⟩, linemessage_ok_iff.mp ⟨line, hline⟩, hchannel, ⟨rowid, rfl⟩⟩ hlogged

/-- No message adds markup to the log exactly if what is not escaped has none in it. -/
theorem avbotLog_clean_iff (curtime : Str) (inserted : Except Exn Int) (fetchImg : Bool) (bot : Bot) (message : Ptree) :
    (avbotLog curtime inserted fetchImg bot message).Clean ↔
      (Logged inserted fetchImg message → CleanMessage fetchImg message) := by
  by_cases hlogged : Logged inserted fetchImg message
  · grind [clean_avbotLog_iff]
  · refine ⟨fun _ h => absurd h hlogged, fun _ => ?_⟩
    simp [LogOutcome.Clean, logged_nil_of_not hlogged]

/-- A message whose sender calls themselves `<b>`. -/
def boldNick : IrcMsg := ⟨"<b>".toList, "#x".toList, [], "hi".toList⟩

/-- The nick is published as a tag. -/
theorem nick_published_as_tag :
    ∃ message, ircMessage Bot.new boldNick = .ok message ∧
      (avbotLog [] (.ok 1) false Bot.new message).logged.map (fun call => (call.groupid, erase call.msg)) =
        [("none".toList, "<b> 说：hi".toList)] ∧
      ¬ (avbotLog [] (.ok 1) false Bot.new message).Clean := by
  have hlogged : (avbotLog [] (.ok 1) false Bot.new (ircMessageTree Bot.new boldNick "x".toList)).logged =
      [⟨"none".toList, given "<b> 说：hi".toList, 1⟩] := by decide +kernel
  refine ⟨ircMessageTree Bot.new boldNick "x".toList, rfl, by rw [hlogged]; decide, ?_⟩
  intro hclean
  rw [LogOutcome.Clean, hlogged, List.forall_mem_singleton, noMarkup_given] at hclean
  exact absurd hclean.1 (by decide)

end Avbot
