import Avbot.Http.Cookie
import Avbot.Http.Parsers

/-!
# Cookies in a file

`save_to_file` writes a line of seven fields for each cookie, and `load_from_file` reads such a file. The end of a line is written with a length of one byte, which is the tab before the line feed. Times are seconds; the local time of `mktime` is UTC.
-/

namespace Avbot.Http

open List Option
open Str (decimalInt isSpace trim trimRight)

def memo : List Str :=
  [ "# Netscape HTTP Cookie File".toList,
    "# http://curl.haxx.se/docs/http-cookies.html".toList,
    "# This file was generated by libcurl! Edit at your own risk.".toList,
    [] ]

def boolText (b : Bool) : Str := if b then "TRUE".toList else "FALSE".toList

def timeText (expires : Option Int) : Str := decimalInt (expires.getD 0)

def Cookie.record (defaultDomain : Str) (c : Cookie) : Str :=
  (if c.domain = [] then defaultDomain else c.domain) ++ ['\t'] ++
  boolText (c.domain ≠ []) ++ ['\t'] ++
  c.path ++ ['\t'] ++
  boolText c.secure ++ ['\t'] ++
  timeText c.expires ++ ['\t'] ++
  c.name ++ ['\t'] ++
  c.value ++ "\t\n".toList.take 1

def saveToFile (cookies : List Cookie) (defaultDomain : Str) : Str :=
  (memo.flatMap fun line => line ++ ['\n']) ++ cookies.flatMap (Cookie.record defaultDomain)

/-- `boost::token_compress_on`: between the first and the last piece there are no empty ones. -/
def compress : List Str → List Str
  | [] => []
  | [t] => [t]
  | t :: rest => if t = [] then compress rest else t :: compress rest

def splitTabs (s : Str) : List Str :=
  match s.splitOnP (· = '\t') with
  | [] => []
  | t :: rest => t :: compress rest

def parseRecord (line : Str) : Option Cookie :=
  match splitTabs line with
  | domain :: _ :: path :: secure :: time :: name :: value :: _ =>
    some {
      name := name
      value := value
      domain := domain
      path := path
      expires := some (strtoll (Str.cStr time))
      httponly := false
      secure := secure = "TRUE".toList }
  | _ => none

def loadLine (jar : List Cookie) (line : Str) : Option (List Cookie) :=
  match trim line with
  | [] => some jar
  | c :: rest => if c = '#' then some jar else (parseRecord (c :: rest)).map fun cookie => jar ++ [cookie]

def loadFromFile (jar : List Cookie) (content : Str) : Option (List Cookie) :=
  (content.splitOnP (· = '\n')).foldlM loadLine jar

structure PlainField (s : Str) : Prop where
  ne_nil : s ≠ []
  no_separator : ∀ c ∈ s, c ≠ '\t' ∧ c ≠ '\r' ∧ c ≠ '\n'
  head : ∀ c ∈ s.head?, isSpace c = false ∧ c ≠ '#'
  last : ∀ c ∈ s.getLast?, isSpace c = false

instance (s : Str) : Decidable (PlainField s) :=
  decidable_of_iff (s ≠ [] ∧ (∀ c ∈ s, c ≠ '\t' ∧ c ≠ '\r' ∧ c ≠ '\n') ∧
      (∀ c ∈ s.head?, isSpace c = false ∧ c ≠ '#') ∧ ∀ c ∈ s.getLast?, isSpace c = false)
    ⟨fun h => ⟨h.1, h.2.1, h.2.2.1, h.2.2.2⟩, fun h => ⟨h.ne_nil, h.no_separator, h.head, h.last⟩⟩

/-- A cookie of plain texts, whose date is a value of `time_t`. -/
structure Cookie.Plain (c : Cookie) : Prop where
  name : PlainField c.name
  value : PlainField c.value
  domain : PlainField c.domain
  path : PlainField c.path
  expires : ∀ d ∈ c.expires, -9223372036854775808 ≤ d ∧ d ≤ 9223372036854775807

structure Token (s : Str) : Prop where
  ne_nil : s ≠ []
  no_tab : ∀ c ∈ s, c ≠ '\t'
  no_lf : '\n' ∉ s

variable {s : Str} {c : Cookie} {cookies : List Cookie}

theorem PlainField.token (h : PlainField s) : Token s where
  ne_nil := h.ne_nil
  no_tab c hc := (h.no_separator c hc).1
  no_lf hmem := (h.no_separator _ hmem).2.2 rfl

theorem token_boolText (b : Bool) : Token (boolText b) := by
  cases b with
  | false => exact ⟨by decide, by decide, by decide⟩
  | true => exact ⟨by decide, by decide, by decide⟩

theorem mem_decimalInt {n : Int} {c : Char} (hc : c ∈ decimalInt n) : c = '-' ∨ c.isDigit = true := by
  unfold decimalInt at hc
  split at hc
  · rcases mem_cons.mp hc with rfl | hc
    · exact .inl rfl
    · exact .inr (Str.isDigit_of_mem_decimal hc)
  · exact .inr (Str.isDigit_of_mem_decimal hc)

theorem token_timeText (expires : Option Int) : Token (timeText expires) := by
  refine ⟨?_, ?_, ?_⟩
  · unfold timeText decimalInt
    split
    · exact cons_ne_nil _ _
    · exact Str.decimal_ne_nil _
  · rintro c hc rfl
    rcases mem_decimalInt hc with h | h <;> exact absurd h (by decide)
  · intro hc
    rcases mem_decimalInt hc with h | h <;> exact absurd h (by decide)

def Cookie.body (c : Cookie) : Str :=
  c.domain ++ '\t' :: (boolText true ++ '\t' :: (c.path ++ '\t' :: (boolText c.secure ++ '\t' ::
    (timeText c.expires ++ '\t' :: (c.name ++ '\t' :: c.value)))))

theorem Cookie.record_eq (hdomain : c.domain ≠ []) (defaultDomain : Str) :
    c.record defaultDomain = c.body ++ ['\t'] := by
  have hend : "\t\n".toList.take 1 = ['\t'] := by decide
  unfold record body
  rw [if_neg hdomain, hend, show decide (c.domain ≠ []) = true by simpa using hdomain]
  simp only [append_assoc, cons_append, nil_append]

def Cookie.reloaded (c : Cookie) : Cookie := { c with expires := some (c.expires.getD 0), httponly := false }

theorem compress_cons {t : Str} (ht : t ≠ []) (rest : List Str) : compress (t :: rest) = t :: compress rest := by
  cases rest with
  | nil => rfl
  | cons t' rest => rw [compress.eq_3, if_neg ht]; simp

theorem splitOnP_token (hs : ∀ c ∈ s, c ≠ '\t') (rest : Str) :
    (s ++ '\t' :: rest).splitOnP (· = '\t') = s :: rest.splitOnP (· = '\t') :=
  splitOnP_append_cons_of_forall_mem (by simpa using hs) _ (by decide) rest

theorem parseRecord_body (hc : c.Plain) {rest : Str} (hrest : rest = [] ∨ rest.head? = some '\t') :
    parseRecord (c.body ++ rest) = some c.reloaded := by
  obtain ⟨more, hmore⟩ : ∃ more, (c.value ++ rest).splitOnP (· = '\t') = c.value :: more := by
    rcases hrest with rfl | hrest
    · refine ⟨[], ?_⟩
      rw [append_nil]
      exact splitOnP_eq_singleton (by simpa using hc.value.token.no_tab)
    · obtain ⟨rest, rfl⟩ : ∃ t, rest = '\t' :: t := head?_eq_some_iff.mp hrest
      exact ⟨_, splitOnP_token hc.value.token.no_tab rest⟩
  have htrue : ∀ b, decide (boolText b = "TRUE".toList) = b := by decide
  have hdate : -9223372036854775808 ≤ c.expires.getD 0 ∧ c.expires.getD 0 ≤ 9223372036854775807 := by
    cases hexpires : c.expires with
    | none => simp
    | some d => exact hc.expires d hexpires
  have hsplit : splitTabs (c.body ++ rest) =
      c.domain :: boolText true :: c.path :: boolText c.secure :: timeText c.expires :: c.name :: c.value ::
        compress more := by
    unfold splitTabs Cookie.body
    simp only [append_assoc, cons_append]
    rw [splitOnP_token hc.domain.token.no_tab, splitOnP_token (token_boolText _).no_tab,
      splitOnP_token hc.path.token.no_tab, splitOnP_token (token_boolText _).no_tab,
      splitOnP_token (token_timeText _).no_tab, splitOnP_token hc.name.token.no_tab, hmore]
    dsimp only
    rw [compress_cons (token_boolText _).ne_nil, compress_cons hc.path.ne_nil, compress_cons (token_boolText _).ne_nil,
      compress_cons (token_timeText _).ne_nil, compress_cons hc.name.ne_nil, compress_cons hc.value.ne_nil]
  unfold parseRecord
  rw [hsplit]
  simp only [timeText, strtoll_decimalInt hdate, htrue]
  rfl

theorem body_head (hc : c.Plain) : ∃ first rest, c.body = first :: rest ∧
    isSpace first = false ∧ first ≠ '#' := by
  obtain ⟨first, domain, hdomain⟩ := exists_cons_of_ne_nil hc.domain.ne_nil
  obtain ⟨hspace, hhash⟩ := hc.domain.head first (by simp [hdomain])
  refine ⟨first, domain ++ '\t' :: (boolText true ++ '\t' :: (c.path ++ '\t' :: (boolText c.secure ++ '\t' ::
    (timeText c.expires ++ '\t' :: (c.name ++ '\t' :: c.value))))), ?_, hspace, hhash⟩
  rw [Cookie.body, hdomain]
  rfl

theorem body_last (hc : c.Plain) : ∃ front last, c.body = front ++ [last] ∧ isSpace last = false := by
  obtain ⟨value, last, hvalue⟩ : ∃ value last, c.value = value ++ [last] :=
    ⟨_, _, (dropLast_append_getLast hc.value.ne_nil).symm⟩
  have hlast := hc.value.last last (by simp [hvalue])
  refine ⟨c.domain ++ '\t' :: (boolText true ++ '\t' :: (c.path ++ '\t' :: (boolText c.secure ++ '\t' ::
    (timeText c.expires ++ '\t' :: (c.name ++ '\t' :: value))))), last, ?_, hlast⟩
  simp only [Cookie.body, hvalue, append_assoc, cons_append]

theorem trim_body (hc : c.Plain) (rest : Str) :
    ∃ rest', (rest' = [] ∨ rest'.head? = some '\t') ∧ trim (c.body ++ '\t' :: rest) = c.body ++ rest' := by
  obtain ⟨front, last, hlast, hspace⟩ := body_last hc
  have hright : trimRight (c.body ++ '\t' :: rest) = c.body ++ trimRight ('\t' :: rest) := by
    rw [hlast, append_assoc, singleton_append, Str.trimRight_append_cons hspace]
    simp
  refine ⟨trimRight ('\t' :: rest), ?_, ?_⟩
  · have hpre : trimRight ('\t' :: rest) <+: '\t' :: rest := rdropWhile_prefix _ _
    cases htrim : trimRight ('\t' :: rest) with
    | nil => exact .inl rfl
    | cons x t =>
      rw [htrim] at hpre
      rw [(cons_prefix_cons.mp hpre).1]
      exact .inr rfl
  · obtain ⟨first, tail, hfirst, hfirstSpace, -⟩ := body_head hc
    rw [trim, hright, Str.trimLeft, hfirst, cons_append, dropWhile_cons_of_neg (by simp [hfirstSpace])]

theorem loadLine_of_trim {line : Str} (h : trim line = [] ∨ (trim line).head? = some '#') (jar : List Cookie) :
    loadLine jar line = some jar := by
  unfold loadLine
  rcases h with h | h
  · rw [h]
  · obtain ⟨rest, hrest⟩ := head?_eq_some_iff.mp h
    rw [hrest]
    rfl

theorem loadLine_records (hc : c.Plain) (defaultDomain rest : Str) (jar : List Cookie) :
    loadLine jar (c.record defaultDomain ++ rest) = some (jar ++ [c.reloaded]) := by
  obtain ⟨rest', hrest', htrim⟩ := trim_body hc rest
  obtain ⟨first, tail, hfirst, -, hhash⟩ := body_head hc
  have hparse := parseRecord_body hc hrest'
  rw [Cookie.record_eq hc.domain.ne_nil, append_assoc, singleton_append, loadLine, htrim]
  rw [hfirst, cons_append] at hparse ⊢
  dsimp only
  rw [if_neg hhash, hparse]
  rfl

theorem record_no_lf (hc : c.Plain) (defaultDomain : Str) : '\n' ∉ c.record defaultDomain := by
  rw [Cookie.record_eq hc.domain.ne_nil, Cookie.body]
  simp [hc.domain.token.no_lf, hc.path.token.no_lf, hc.name.token.no_lf, hc.value.token.no_lf,
    (token_boolText true).no_lf, (token_boolText c.secure).no_lf, (token_timeText c.expires).no_lf]

theorem splitOnP_lines {lines : List Str} (hlines : ∀ line ∈ lines, '\n' ∉ line) (rest : Str) :
    ((lines.flatMap fun line => line ++ ['\n']) ++ rest).splitOnP (· = '\n') = lines ++ rest.splitOnP (· = '\n') := by
  induction lines with
  | nil => rfl
  | cons line lines ih =>
    have hline : ∀ c ∈ line, decide (c = '\n') = false := by
      intro c hc
      simp only [decide_eq_false_iff_not]
      rintro rfl
      exact hlines line mem_cons_self hc
    simp only [flatMap_cons, append_assoc, cons_append, nil_append]
    rw [splitOnP_append_cons_of_forall_mem hline '\n' (by decide), ih fun l hl => hlines l (mem_cons_of_mem _ hl)]

theorem loadFromFile_saveToFile (hplain : ∀ c ∈ cookies, c.Plain) (defaultDomain : Str) (jar : List Cookie) :
    loadFromFile jar (saveToFile cookies defaultDomain) = loadLine jar (cookies.flatMap (Cookie.record defaultDomain)) := by
  have hlf : ∀ line ∈ memo, '\n' ∉ line := by decide
  have hmemo : ∀ line ∈ memo, trim line = [] ∨ (trim line).head? = some '#' := by decide
  have hskip : ∀ lines : List Str, (∀ line ∈ lines, line ∈ memo) → lines.foldlM loadLine jar = some jar := by
    intro lines hlines
    induction lines with
    | nil => rfl
    | cons line lines ih =>
      rw [foldlM_cons, loadLine_of_trim (hmemo line (hlines line mem_cons_self))]
      exact ih fun l hl => hlines l (mem_cons_of_mem _ hl)
  have hrecords : (cookies.flatMap (Cookie.record defaultDomain)).splitOnP (· = '\n') =
      [cookies.flatMap (Cookie.record defaultDomain)] := by
    apply splitOnP_eq_singleton
    intro c hc
    obtain ⟨cookie, hcookie, hmem⟩ := mem_flatMap.mp hc
    simp only [decide_eq_false_iff_not]
    rintro rfl
    exact record_no_lf (hplain cookie hcookie) defaultDomain hmem
  rw [loadFromFile, saveToFile, splitOnP_lines hlf, hrecords, foldlM_append, hskip memo fun _ h => h]
  simp

theorem loadFromFile_nil (defaultDomain : Str) : loadFromFile [] (saveToFile [] defaultDomain) = some [] := by
  rw [loadFromFile_saveToFile (by simp)]
  rfl

theorem loadFromFile_cons (hplain : ∀ c' ∈ c :: cookies, c'.Plain) (defaultDomain : Str) :
    loadFromFile [] (saveToFile (c :: cookies) defaultDomain) = some [c.reloaded] := by
  rw [loadFromFile_saveToFile hplain, flatMap_cons, loadLine_records (hplain c mem_cons_self)]
  rfl

def Cookie.content (c : Cookie) : Str × Str × Str × Str × Bool := (c.name, c.value, c.domain, c.path, c.secure)

def RoundTrips (cookies : List Cookie) (defaultDomain : Str) (saved : Int) : Prop :=
  ∃ loaded, loadFromFile [] (saveToFile cookies defaultDomain) = some loaded ∧
    loaded.map Cookie.content = cookies.map Cookie.content ∧
    ∀ now, saved ≤ now → loaded.map (Cookie.expired now) = cookies.map (Cookie.expired now)

/-- A jar survives its file exactly if it has no cookie, or a single one with a date. -/
theorem roundTrips_iff {cookies : List Cookie} (hplain : ∀ c ∈ cookies, c.Plain) (defaultDomain : Str) (saved : Int) :
    RoundTrips cookies defaultDomain saved ↔ cookies = [] ∨ ∃ c, cookies = [c] ∧ c.expires ≠ none := by
  cases cookies with
  | nil =>
    refine iff_of_true ⟨[], loadFromFile_nil defaultDomain, rfl, ?_⟩ (.inl rfl)
    intro now _
    rfl
  | cons c cookies =>
    have hload := loadFromFile_cons hplain defaultDomain
    constructor
    · rintro ⟨loaded, hloaded, hcontent, hexpired⟩
      obtain rfl : [c.reloaded] = loaded := some.inj (hload.symm.trans hloaded)
      have hlength := congrArg length hcontent
      obtain rfl : cookies = [] := by simpa using hlength.symm
      refine .inr ⟨c, rfl, ?_⟩
      -- a cookie without a date comes back with the first second of 1970
      intro hnone
      have hlater := hexpired (max saved 1) (le_max_left _ _)
      simp [Cookie.expired, Cookie.reloaded, hnone, ptimeLt] at hlater
    · rintro (hnil | ⟨c', hsingle, hdate⟩)
      · exact absurd hnil (cons_ne_nil _ _)
      · obtain ⟨rfl, rfl⟩ := cons.inj hsingle
        refine ⟨[c.reloaded], hload, rfl, ?_⟩
        intro now _
        obtain ⟨d, hd⟩ := ne_none_iff_exists'.mp hdate
        simp [Cookie.expired, Cookie.reloaded, hd]

def sessionCookie (name : Str) : Cookie where
  name := name
  value := "abc".toList
  domain := ".site".toList
  path := "/".toList
  expires := some 1400000000
  httponly := false
  secure := true

theorem sessionCookie_plain {name : Str} (hname : PlainField name) : (sessionCookie name).Plain where
  name := hname
  value := show PlainField "abc".toList by decide
  domain := show PlainField ".site".toList by decide
  path := show PlainField "/".toList by decide
  expires := by
    intro d hd
    obtain rfl : 1400000000 = d := some.inj hd
    decide

theorem roundTrips_of_sessionCookie : RoundTrips [sessionCookie "sid".toList] [] 1300000000 := by
  refine (roundTrips_iff ?_ [] 1300000000).mpr (.inr ⟨_, rfl, by decide⟩)
  intro c hc
  obtain rfl := mem_singleton.mp hc
  exact sessionCookie_plain (by decide)

/-- Of two cookies the second is gone. -/
theorem second_cookie_not_loaded :
    (sessionCookie "sid".toList).Plain ∧ (sessionCookie "uid".toList).Plain ∧
      loadFromFile [] (saveToFile [sessionCookie "sid".toList, sessionCookie "uid".toList] []) =
        some [sessionCookie "sid".toList] :=
  ⟨sessionCookie_plain (by decide),
    sessionCookie_plain (by decide), by decide⟩

end Avbot.Http
