import Avbot.Bot.Callbacks
import Avbot.Lib.Template

/-!
# The preamble of a forwarded message

`preamble_formater` fills the sender's and the room's names into a format, with one `replace_all` for each placeholder. A later `replace_all` also reads the names that an earlier one has put in.
-/

namespace Avbot

open List Template

inductive PreambleArgs where
  | irc (pmsg : IrcMsg)
  | xmpp (who room : Str)
  | qq (buddy : Option QqBuddy) (falbacknick : Str) (group : Option QqGroup)

/-- Which `preamble_formater` is called. The one for QQ knows the placeholders of a room only if it is given a group. -/
inductive PreambleOverload where
  | irc
  | xmpp
  | qq
  | qqGroup
  deriving DecidableEq

def PreambleOverload.letters : PreambleOverload → List Char
  | irc => "arn".toList
  | xmpp => "arn".toList
  | qq => "anuqc".toList
  | qqGroup => "anuqcrR".toList

namespace PreambleArgs

def overload : PreambleArgs → PreambleOverload
  | irc _ => .irc
  | xmpp _ _ => .xmpp
  | qq _ _ none => .qq
  | qq _ _ (some _) => .qqGroup

def preambleFormater (fmt : Str) : PreambleArgs → Str
  | irc pmsg => preambleFormaterIrc fmt pmsg
  | xmpp who room => preambleFormaterXmpp fmt who room
  | qq buddy falbacknick group => preambleFormaterQq fmt buddy falbacknick group

/-- What each placeholder stands for. A member who is not known has a nick for `%a` alone. -/
def fields : PreambleArgs → List (Char × Str)
  | irc pmsg => [('a', pmsg.whom), ('r', pmsg.fromRoom), ('n', pmsg.whom)]
  | xmpp who room => [('a', who), ('r', room), ('n', who)]
  | qq buddy falbacknick group =>
    let who := buddy.getD ⟨[], [], [], 0, []⟩
    [('a', autonick buddy falbacknick), ('n', who.nick), ('u', who.uin), ('q', who.qqnum),
      ('c', who.card)] ++
      match group with
      | none => []
      | some group => [('r', group.qqnum), ('R', group.name)]

theorem map_fst_fields (args : PreambleArgs) : args.fields.map Prod.fst = args.overload.letters := by
  cases args with
  | irc pmsg => rfl
  | xmpp who room => rfl
  | qq buddy falbacknick group => cases group <;> rfl

theorem lettered_fields (args : PreambleArgs) : Lettered '%' args.fields where
  nodup := by
    rw [map_fst_fields]
    cases args.overload <;> decide
  esc_notMem := by
    rw [map_fst_fields]
    cases args.overload <;> decide

end PreambleArgs

theorem replaceAll_placeholder (s : Str) (x : Char) (v : Str) :
    Str.replaceAll s ['%', x] v = expand '%' [(x, v)] s := by
  rw [Str.replaceAll, if_neg (cons_ne_nil _ _)]
  induction s using expand_induction '%' [(x, v)] with
  | nil => rfl
  | placeholder y w t hy ih =>
    obtain ⟨rfl, rfl⟩ : y = x ∧ v = w := by
      grind
    rw [expand_placeholder hy, ← ih]
    simp [Str.replaceAllFrom]
  | literal a s ha ih =>
    rw [expand_cons ha, ← ih]
    have hclosed : ¬ ['%', x].isPrefixOf (a :: s) := by
      cases s with
      | nil => simp [List.isPrefixOf]
      | cons b s =>
        rw [ isPrefixOf_iff_prefix, cons_prefix_cons, cons_prefix_cons]
        rintro ⟨rfl, rfl, -⟩
        have hnone := ha rfl x rfl
        simp at hnone
    rw [Str.replaceAllFrom, if_neg hclosed]

namespace PreambleArgs

theorem preambleFormater_eq_passes (fmt : Str) (args : PreambleArgs) :
    args.preambleFormater fmt = passes '%' args.fields fmt := by
  cases args with
  | irc pmsg =>
    simp [preambleFormater, preambleFormaterIrc, fields, passes, replaceAll_placeholder]
  | xmpp who room =>
    simp [preambleFormater, preambleFormaterXmpp, fields, passes, replaceAll_placeholder]
  | qq buddy falbacknick group =>
    cases group <;>
      simp [preambleFormater, preambleFormaterQq, fields, passes, replaceAll_placeholder]

def naming (x : Char) : Str := ['%', x, 'z']

variable {fmt : Str} {x : Char} {args : PreambleArgs}

theorem occurrences_lt_of_naming {filled : List (Char × Str)} {y : Char}
    (hesc : filled.lookup '%' = none) (hxesc : x ≠ '%') (hx : filled.lookup x = none)
    (hy : filled.lookup y = some (naming x)) (hfmt : 0 < occurrences '%' y fmt) :
    occurrences '%' x (expand '%' filled fmt) ≠ occurrences '%' x fmt := by
  grind [occurrences, naming, occurrences_lt_expand]

theorem z_notMem_letters (o : PreambleOverload) : 'z' ∉ o.letters := by
  cases o <;> decide

theorem exists_disturbed {o : PreambleOverload} (hx : x ∈ o.letters.dropLast) (hfmt : 0 < occurrences '%' x fmt) :
    ∃ args : PreambleArgs, args.overload = o ∧
      (∀ field ∈ args.fields, 'z' ∈ field.2) ∧ ¬ Undisturbed '%' fmt [] args.fields := by
  cases o with
  | irc =>
    replace hx : x ∈ ['a', 'r'] := hx
    simp only [mem_cons, not_mem_nil, or_false] at hx
    rcases hx with rfl | rfl
    · refine ⟨irc ⟨naming 'r', ['z'], [], []⟩, rfl, by simp [fields, naming], fun h => ?_⟩
      exact occurrences_lt_of_naming rfl (by decide) rfl rfl hfmt h.2.1
    · refine ⟨irc ⟨['z'], naming 'n', [], []⟩, rfl, by simp [fields, naming], fun h => ?_⟩
      exact occurrences_lt_of_naming rfl (by decide) rfl rfl hfmt h.2.2.1
  | xmpp =>
    replace hx : x ∈ ['a', 'r'] := hx
    simp only [mem_cons, not_mem_nil, or_false] at hx
    rcases hx with rfl | rfl
    · refine ⟨xmpp (naming 'r') ['z'], rfl, by simp [fields, naming], fun h => ?_⟩
      exact occurrences_lt_of_naming rfl (by decide) rfl rfl hfmt h.2.1
    · refine ⟨xmpp ['z'] (naming 'n'), rfl, by simp [fields, naming], fun h => ?_⟩
      exact occurrences_lt_of_naming rfl (by decide) rfl rfl hfmt h.2.2.1
  | qq =>
    replace hx : x ∈ ['a', 'n', 'u', 'q'] := hx
    simp only [mem_cons, not_mem_nil, or_false] at hx
    rcases hx with rfl | hx
    · refine ⟨qq (some ⟨['z'], ['z'], naming 'n', 0, ['z']⟩) [] none, rfl,
        by simp [fields, autonick, naming], fun h => ?_⟩
      exact occurrences_lt_of_naming rfl (by decide) rfl rfl hfmt h.2.1
    · -- the card itself comes last, so it cannot name a later field
      refine ⟨qq (some ⟨naming 'c', naming 'c', ['z'], 0, naming 'c'⟩) [] none, rfl,
        by simp [fields, autonick, naming], fun h => ?_⟩
      apply occurrences_lt_of_naming rfl (by decide) rfl _ hfmt h.2.2.2.2.1
      rcases hx with rfl | rfl | rfl <;> rfl
  | qqGroup =>
    refine ⟨qq (some ⟨naming 'R', naming 'R', naming 'R', 0, naming 'R'⟩) []
      (some ⟨[], ['z'], [], naming 'R', []⟩), rfl, by simp [fields, autonick, naming],
      fun h => ?_⟩
    apply occurrences_lt_of_naming rfl (by decide) rfl _ hfmt h.2.2.2.2.2.2.1
    replace hx : x ∈ ['a', 'n', 'u', 'q', 'c', 'r'] := hx
    simp only [mem_cons, not_mem_nil, or_false] at hx
    rcases hx with rfl | rfl | rfl | rfl | rfl | rfl <;> rfl

theorem preambleFormater_eq_expand (hargs : Undisturbed '%' fmt [] args.fields) :
    args.preambleFormater fmt = expand '%' args.fields fmt := by
  rw [preambleFormater_eq_passes]
  exact passes_eq_expand args.lettered_fields hargs

example : Undisturbed '%' "qq(%a): ".toList []
    (qq (some ⟨"7".toList, "50%".toList, [], 0, "10000".toList⟩) [] none).fields := by decide

theorem preambleFormater_eq_expand_iff
    (hvalues : ∀ field ∈ args.fields, ∃ z ∈ field.2, z ≠ '%' ∧ z ∉ args.overload.letters) :
    args.preambleFormater fmt = expand '%' args.fields fmt ↔ Undisturbed '%' fmt [] args.fields := by
  rw [← map_fst_fields] at hvalues
  rw [preambleFormater_eq_passes]
  exact passes_eq_expand_iff args.lettered_fields hvalues

/-- A format is safe for every sender exactly if it mentions no placeholder but the last one replaced. The names of one sender are put in as they are if none of them makes a new placeholder of a later field. -/
theorem preambleFormater_simultaneous_iff (fmt : Str) :
    (∀ o : PreambleOverload,
      (∀ args : PreambleArgs, args.overload = o →
        args.preambleFormater fmt = expand '%' args.fields fmt) ↔
          ∀ x ∈ o.letters.dropLast, occurrences '%' x fmt = 0) ∧
    (∀ args : PreambleArgs, Undisturbed '%' fmt [] args.fields →
      args.preambleFormater fmt = expand '%' args.fields fmt) ∧
    (∀ args : PreambleArgs,
      (∀ field ∈ args.fields, ∃ z ∈ field.2, z ≠ '%' ∧ z ∉ args.overload.letters) →
        (args.preambleFormater fmt = expand '%' args.fields fmt ↔
          Undisturbed '%' fmt [] args.fields)) ∧
    ∀ args args' : PreambleArgs,
      Undisturbed '%' fmt [] args.fields → Undisturbed '%' fmt [] args'.fields →
        (∀ x, 0 < occurrences '%' x fmt → args.fields.lookup x = args'.fields.lookup x) →
          args.preambleFormater fmt = args'.preambleFormater fmt := by
  refine ⟨fun o => ⟨fun hall x hx => ?_, fun hfmt args hargs => ?_⟩,
    fun args => preambleFormater_eq_expand, fun args => preambleFormater_eq_expand_iff,
    fun args args' hargs hargs' hagree => ?_⟩
  · by_contra hmentioned
    obtain ⟨args, ho, hz, hdisturbed⟩ := exists_disturbed hx (Nat.pos_of_ne_zero hmentioned)
    have hvalues : ∀ field ∈ args.fields, ∃ z ∈ field.2, z ≠ '%' ∧ z ∉ args.overload.letters :=
      fun field hfield => ⟨'z', hz field hfield, by decide, z_notMem_letters _⟩
    exact hdisturbed ((preambleFormater_eq_expand_iff hvalues).mp (hall args ho))
  · apply preambleFormater_eq_expand
    apply undisturbed_of_unmentioned
    rwa [nil_append, map_fst_fields, hargs]
  · grind [preambleFormater_eq_expand, expand_congr]

def memberCalled (nick uin : Str) : PreambleArgs := qq (some ⟨uin, nick, [], 0, []⟩) [] none

/-- A member called `%u` is shown by their `uin`, which the format does not mention. -/
theorem nick_expanded_to_uin :
    (memberCalled "%u".toList "7".toList).preambleFormater "qq(%a): ".toList = "qq(7): ".toList ∧
    (memberCalled "%u".toList "7".toList).preambleFormater "qq(%a): ".toList ≠
      expand '%' (memberCalled "%u".toList "7".toList).fields "qq(%a): ".toList ∧
    occurrences '%' 'u' "qq(%a): ".toList = 0 ∧
    (memberCalled "%u".toList "7".toList).preambleFormater "qq(%a): ".toList ≠
      (memberCalled "%u".toList "8".toList).preambleFormater "qq(%a): ".toList := by
  decide

end PreambleArgs

end Avbot
