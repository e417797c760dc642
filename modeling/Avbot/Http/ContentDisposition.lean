import Avbot.Http.SetCookie
import Mathlib.Data.List.DropRight

/-!
# The file name of a `Content-Disposition`

`content_disposition_filename` goes through the parameters of the header like the parser of cookies, but it does not clear `name` after a value. So a parameter is taken for the file name if its key, written behind the keys of the unquoted parameters directly in front of it, is `filename`.
-/

namespace Avbot.Http

open List Scanner

inductive DispositionState where
  | parseKeyStart
  | parseKey
  | parseValueStart
  | parseValue
  deriving DecidableEq

structure DispositionParse where
  state : DispositionState
  name : Str
  value : Str
  filename : Str
  deriving DecidableEq

def filenameKey : Str := "filename".toList

def isDelimiter (c : Char) : Bool := c = ';' || c = '"' || c = '\''

namespace DispositionParse

def step (p : DispositionParse) (c : Char) : Outcome DispositionParse Unit :=
  match p.state with
  | .parseKeyStart =>
    if c = ' ' then .next p
    else if isChar c then .next { p with name := p.name ++ [c], state := .parseKey }
    else .fail
  | .parseKey =>
    if c = ';' then .next { p with name := [], state := .parseKeyStart }
    else if c = '=' then .next { p with value := [], state := .parseValueStart }
    else if isTspecial c || c = ':' then .next { p with name := [], state := .parseKeyStart }
    else if isChar c || c = '_' then .next { p with name := p.name ++ [c] }
    else .next p
  | .parseValueStart =>
    if isDelimiter c then .next p
    else if isChar c then .next { p with value := p.value ++ [c], state := .parseValue }
    else .fail
  | .parseValue =>
    if isDelimiter c then
      .next { p with filename := if p.name = filenameKey then p.value else p.filename, state := .parseKeyStart }
    else if isChar c then .next { p with value := p.value ++ [c] }
    else .fail

/-- What is returned after the loop, and `filename`. -/
def finish (p : DispositionParse) : Bool × Str :=
  let filename := if p.name = filenameKey ∧ p.value ≠ [] then p.value else p.filename
  (filename ≠ [], filename)

end DispositionParse

def contentDispositionFilename (s filename : Str) : Bool × Str :=
  (reached DispositionParse.step ⟨.parseKeyStart, [], [], filename⟩ s).finish

structure DispositionParam where
  key : Str
  value : Str
  quoted : Bool
  key_ne : key ≠ []
  key_chars : ∀ c ∈ key, c.isAlphanum = true
  isValue : IsValue value

/-- A parameter list, after a plain token or none. As in the comment of the source it may end in a semicolon. -/
structure Disposition where
  token : Option Str
  params : List DispositionParam
  semicolon : Bool
  token_ne : ∀ t ∈ token, t ≠ []
  token_chars : ∀ t ∈ token, ∀ c ∈ t, isToken c = true ∧ c ∉ ";:=".toList

def DispositionParam.text (p : DispositionParam) : Str :=
  p.key ++ '=' :: if p.quoted then '"' :: (p.value ++ ['"']) else p.value

def dispositionText (parts : List Str) (semicolon : Bool) : Str :=
  List.intercalate "; ".toList parts ++ if semicolon then [';'] else []

def Disposition.text (h : Disposition) : Str :=
  dispositionText (h.token.toList ++ h.params.map DispositionParam.text) h.semicolon

def carriedKeys (params : List DispositionParam) : Str := (params.rtakeWhile fun p => !p.quoted).flatMap DispositionParam.key

def SpellsFilename (params : List DispositionParam) (i : Nat) : Prop :=
  ∃ p, params[i]? = some p ∧ carriedKeys (params.take i) ++ p.key = filenameKey

def LastSpelled (params : List DispositionParam) (v : Str) : Prop :=
  ∃ i, SpellsFilename params i ∧ (∀ j, i < j → ¬ SpellsFilename params j) ∧
    params[i]?.map DispositionParam.value = some v

theorem key_char {c : Char} (hc : c.isAlphanum = true) :
    isChar c = true ∧ c ≠ ' ' ∧ c ≠ ';' ∧ c ≠ '=' ∧ c ≠ ':' ∧ isTspecial c = false :=
  isNameChar_spec (by simp [isNameChar, hc])

namespace DispositionParse

variable {name value filename : Str}

variable {key text : Str}

theorem runs_key (hchars : ∀ c ∈ key, isChar c = true ∧ c ≠ ';' ∧ c ≠ '=' ∧ c ≠ ':' ∧ isTspecial c = false) :
    runs step ⟨.parseKey, name, value, filename⟩ key = some ⟨.parseKey, name ++ key, value, filename⟩ := by
  rw [← foldl_concat]
  refine runs_of_forall (f := fun n => DispositionParse.mk .parseKey n value filename) key _ ?_
  intro c hc n
  obtain ⟨hchar, hsemicolon, hequals, hcolon, hspecial⟩ := hchars c hc
  simp [step, hchar, hsemicolon, hequals, hcolon, hspecial]

theorem runs_keyStart (hne : key ≠ [])
    (hchars : ∀ c ∈ key, isChar c = true ∧ c ≠ ';' ∧ c ≠ '=' ∧ c ≠ ':' ∧ isTspecial c = false) :
    runs step ⟨.parseKeyStart, name, value, filename⟩ key = some ⟨.parseKey, name ++ key, value, filename⟩ := by
  obtain ⟨c, key, rfl⟩ := exists_cons_of_ne_nil hne
  obtain ⟨hchar, -, -, -, hspecial⟩ := hchars c mem_cons_self
  have hblank : c ≠ ' ' := by
    rintro rfl
    exact absurd hspecial (by decide)
  have hstep : step ⟨.parseKeyStart, name, value, filename⟩ c = .next ⟨.parseKey, name ++ [c], value, filename⟩ := by
    simp [step, hchar, hblank]
  rw [runs_cons hstep, runs_key fun d hd => hchars d (mem_cons_of_mem c hd)]
  simp

theorem isValueChar_spec {c : Char} (hc : isValueChar c = true) : isChar c = true ∧ isDelimiter c = false := by
  simpa [isValueChar, isDelimiter, and_assoc] using hc

theorem runs_parseValue (htext : ∀ c ∈ text, isValueChar c = true) :
    runs step ⟨.parseValue, name, value, filename⟩ text = some ⟨.parseValue, name, value ++ text, filename⟩ := by
  rw [← foldl_concat]
  refine runs_of_forall (f := fun v => DispositionParse.mk .parseValue name v filename) text _ ?_
  intro c hc v
  obtain ⟨hchar, hdelimiter⟩ := isValueChar_spec (htext c hc)
  simp [step, hchar, hdelimiter]

theorem runs_valueStart (htext : IsValue text) :
    runs step ⟨.parseValueStart, name, [], filename⟩ text = some ⟨.parseValue, name, text, filename⟩ := by
  obtain ⟨c, text, rfl⟩ := exists_cons_of_ne_nil htext.ne_nil
  obtain ⟨hchar, hdelimiter⟩ := isValueChar_spec (htext.isValueChar c mem_cons_self)
  have hstep : step ⟨.parseValueStart, name, [], filename⟩ c = .next ⟨.parseValue, name, [c], filename⟩ := by
    simp [step, hchar, hdelimiter]
  rw [runs_cons hstep, runs_parseValue fun d hd => htext.isValueChar d (mem_cons_of_mem c hd)]
  rfl

end DispositionParse

namespace DispositionParam

open DispositionParse

variable (p : DispositionParam) (name value filename : Str)

def assigned : Str := if name ++ p.key = filenameKey then p.value else filename

def inside : DispositionParse :=
  if p.quoted then ⟨.parseKeyStart, name ++ p.key, p.value, p.assigned name filename⟩
  else ⟨.parseValue, name ++ p.key, p.value, filename⟩

theorem runs_text : runs step ⟨.parseKeyStart, name, value, filename⟩ p.text = some (p.inside name filename) := by
  have hkey : ∀ c ∈ p.key, isChar c = true ∧ c ≠ ';' ∧ c ≠ '=' ∧ c ≠ ':' ∧ isTspecial c = false := by
    intro c hc
    obtain ⟨hchar, -, hrest⟩ := key_char (p.key_chars c hc)
    exact ⟨hchar, hrest⟩
  have hequals : step ⟨.parseKey, name ++ p.key, value, filename⟩ '=' =
      .next ⟨.parseValueStart, name ++ p.key, [], filename⟩ := rfl
  rw [text, runs_append (runs_keyStart p.key_ne hkey), runs_cons hequals, inside]
  cases p.quoted with
  | false => exact runs_valueStart p.isValue
  | true =>
    have hopen : step ⟨.parseValueStart, name ++ p.key, [], filename⟩ '"' =
        .next ⟨.parseValueStart, name ++ p.key, [], filename⟩ := rfl
    rw [if_pos rfl, if_pos rfl, runs_cons hopen, runs_append (runs_valueStart p.isValue)]
    rfl

theorem runs_separator :
    runs step (p.inside name filename) "; ".toList =
      some ⟨.parseKeyStart, if p.quoted then [] else name ++ p.key, p.value, p.assigned name filename⟩ := by
  rw [inside]
  cases p.quoted with
  | false => rfl
  | true => rfl

theorem finish_inside : ((p.inside name filename).finish).2 = p.assigned name filename := by
  have hvalue := p.isValue.ne_nil
  by_cases hname : name ++ p.key = filenameKey
  · cases hquoted : p.quoted with
    | false => simp [inside, hquoted, finish, assigned, hname, hvalue]
    | true => simp [inside, hquoted, finish, assigned, hname, hvalue]
  · cases hquoted : p.quoted with
    | false => simp [inside, hquoted, finish, assigned, hname]
    | true => simp [inside, hquoted, finish, assigned, hname]

theorem finish_semicolon : (reached step (p.inside name filename) [';']).finish.2 = p.assigned name filename := by
  have hvalue := p.isValue.ne_nil
  cases hquoted : p.quoted with
  | false =>
    have hstep : reached step (p.inside name filename) [';'] =
        ⟨.parseKeyStart, name ++ p.key, p.value, p.assigned name filename⟩ := by
      rw [inside, hquoted]
      rfl
    rw [hstep]
    by_cases hname : name ++ p.key = filenameKey
    · simp [finish, assigned, hname, hvalue]
    · simp [finish, assigned, hname]
  | true =>
    have hstep : reached step (p.inside name filename) [';'] =
        ⟨.parseKey, name ++ p.key ++ [';'], p.value, p.assigned name filename⟩ := by
      rw [inside, hquoted]
      rfl
    have hother : name ++ p.key ++ [';'] ≠ filenameKey := by
      intro heq
      have hmem : ';' ∈ filenameKey := by simp [← heq]
      exact absurd hmem (by decide)
    rw [hstep, finish, if_neg fun h => hother h.1]

end DispositionParam

/-- What the machine carries from one parameter to the next: `name`, and `filename`. -/
def readParam (s : Str × Str) (p : DispositionParam) : Str × Str :=
  (if p.quoted then [] else s.1 ++ p.key, p.assigned s.1 s.2)

theorem dispositionText_cons_cons (s t : Str) (parts : List Str) (semicolon : Bool) :
    dispositionText (s :: t :: parts) semicolon = s ++ ("; ".toList ++ dispositionText (t :: parts) semicolon) := by
  simp [dispositionText, intercalate_cons_cons]

variable {params : List DispositionParam} {i : Nat}

theorem finish_params (hne : params ≠ []) (semicolon : Bool) (name value filename : Str) :
    (reached DispositionParse.step ⟨.parseKeyStart, name, value, filename⟩
      (dispositionText (params.map DispositionParam.text) semicolon)).finish.2 =
      (params.foldl readParam (name, filename)).2 := by
  induction params generalizing name value filename with
  | nil => exact absurd rfl hne
  | cons p rest ih =>
    cases rest with
    | nil =>
      rw [dispositionText, map_singleton, intercalate_singleton, reached_append (p.runs_text name value filename)]
      cases semicolon with
      | false => exact p.finish_inside name filename
      | true => exact p.finish_semicolon name filename
    | cons q rest =>
      rw [map_cons, map_cons, dispositionText_cons_cons, reached_append (p.runs_text name value filename),
        reached_append (p.runs_separator name filename), ← map_cons, ih (cons_ne_nil _ _)]
      rfl

theorem runs_token {t : Str} (hne : t ≠ []) (hchars : ∀ c ∈ t, isToken c = true ∧ c ∉ ";:=".toList) (filename : Str) :
    runs DispositionParse.step ⟨.parseKeyStart, [], [], filename⟩ (t ++ "; ".toList) =
      some ⟨.parseKeyStart, [], [], filename⟩ := by
  have htoken : ∀ c ∈ t, isChar c = true ∧ c ≠ ';' ∧ c ≠ '=' ∧ c ≠ ':' ∧ isTspecial c = false := by
    intro c hc
    obtain ⟨htoken, hother⟩ := hchars c hc
    simp only [isToken, Bool.and_eq_true, Bool.not_eq_true'] at htoken
    have hne : ∀ d ∈ ";:=".toList, c ≠ d := fun d hd heq => hother (heq ▸ hd)
    exact ⟨htoken.1.1, hne _ (by decide), hne _ (by decide), hne _ (by decide), htoken.2⟩
  rw [runs_append (DispositionParse.runs_keyStart hne htoken)]
  rfl

theorem finish_text (h : Disposition) (hne : h.params ≠ []) (filename : Str) :
    (contentDispositionFilename h.text filename).2 = (h.params.foldl readParam ([], filename)).2 := by
  rw [contentDispositionFilename, Disposition.text]
  cases htoken : h.token with
  | none => exact finish_params hne _ _ _ _
  | some t =>
    obtain ⟨p, params, hparams⟩ := exists_cons_of_ne_nil hne
    rw [Option.toList_some, singleton_append, hparams, map_cons, dispositionText_cons_cons, ← append_assoc,
      reached_append (runs_token (h.token_ne t htoken) (h.token_chars t htoken) filename), ← map_cons]
    exact finish_params (cons_ne_nil _ _) _ _ _ _

theorem foldl_readParam_fst (params : List DispositionParam) (filename : Str) :
    (params.foldl readParam ([], filename)).1 = carriedKeys params := by
  induction params using reverseRecOn with
  | nil => rfl
  | append_singleton params p ih =>
    rw [foldl_append, foldl_cons, foldl_nil, readParam, ih, carriedKeys, carriedKeys, rtakeWhile_concat]
    cases p.quoted with
    | false => simp
    | true => simp

theorem SpellsFilename.lt (hspells : SpellsFilename params i) : i < params.length := by
  obtain ⟨p, hp, -⟩ := hspells
  exact (List.getElem?_eq_some_iff.mp hp).1

theorem spellsFilename_concat_of_lt (hi : i < params.length)
    (p : DispositionParam) : SpellsFilename (params ++ [p]) i ↔ SpellsFilename params i := by
  rw [SpellsFilename, SpellsFilename, getElem?_append_left hi, take_append_of_le_length hi.le]

theorem spellsFilename_concat_length (params : List DispositionParam) (p : DispositionParam) :
    SpellsFilename (params ++ [p]) params.length ↔ carriedKeys params ++ p.key = filenameKey := by
  simp [SpellsFilename]

theorem spellsFilename_concat_of_ne {p : DispositionParam}
    (hother : carriedKeys params ++ p.key ≠ filenameKey) (i : Nat) :
    SpellsFilename (params ++ [p]) i ↔ SpellsFilename params i := by
  by_cases hi : i < params.length
  · exact spellsFilename_concat_of_lt hi p
  · refine iff_of_false (fun hspells => ?_) fun hspells => hi hspells.lt
    have hlt := hspells.lt
    rw [length_append, length_singleton] at hlt
    obtain rfl : i = params.length := by omega
    exact hother ((spellsFilename_concat_length params p).mp hspells)

theorem lastSpelled_concat_of_eq {p : DispositionParam}
    (hkey : carriedKeys params ++ p.key = filenameKey) (v : Str) : LastSpelled (params ++ [p]) v ↔ p.value = v := by
  have hlast := (spellsFilename_concat_length params p).mpr hkey
  constructor
  · rintro ⟨i, hspells, hlater, hvalue⟩
    have hlt := hspells.lt
    rw [length_append, length_singleton] at hlt
    have hle : ¬ i < params.length := fun hi => hlater params.length hi hlast
    obtain rfl : i = params.length := by omega
    simpa using hvalue
  · rintro rfl
    refine ⟨params.length, hlast, fun j hj hspells => ?_, by simp⟩
    have hlt := hspells.lt
    rw [length_append, length_singleton] at hlt
    omega

theorem lastSpelled_concat_of_ne {p : DispositionParam} (hother : carriedKeys params ++ p.key ≠ filenameKey) (v : Str) :
    LastSpelled (params ++ [p]) v ↔ LastSpelled params v := by
  refine exists_congr fun i => ?_
  simp only [spellsFilename_concat_of_ne hother]
  refine and_congr_right fun hspells => ?_
  rw [getElem?_append_left hspells.lt]

theorem foldl_readParam_snd_eq_iff (params : List DispositionParam) (filename v : Str) :
    (params.foldl readParam ([], filename)).2 = v ↔
      LastSpelled params v ∨ (filename = v ∧ ∀ i, ¬ SpellsFilename params i) := by
  induction params using reverseRecOn with
  | nil => simp [LastSpelled, SpellsFilename]
  | append_singleton params p ih =>
    rw [foldl_append, foldl_cons, foldl_nil, readParam, DispositionParam.assigned, foldl_readParam_fst]
    by_cases hkey : carriedKeys params ++ p.key = filenameKey
    · have hlast := (spellsFilename_concat_length params p).mpr hkey
      rw [if_pos hkey, lastSpelled_concat_of_eq hkey, or_iff_left]
      exact fun hnone => hnone.2 params.length hlast
    · rw [if_neg hkey, lastSpelled_concat_of_ne hkey, ih]
      simp only [spellsFilename_concat_of_ne hkey]

/-- With the key `filename` once, its value is found if it is the last one that is taken for the file name. -/
theorem contentDispositionFilename_iff (h : Disposition) {v : Str}
    (honce : (h.params.filter fun p => p.key = filenameKey).map DispositionParam.value = [v]) (filename : Str) :
    contentDispositionFilename h.text filename = (true, v) ↔
      LastSpelled h.params v ∨ (filename = v ∧ ∀ i, ¬ SpellsFilename h.params i) := by
  obtain ⟨p, hp, rfl⟩ : ∃ p ∈ h.params.filter fun p => p.key = filenameKey, p.value = v :=
    mem_map.mp (by rw [honce]; exact mem_singleton_self v)
  have hne := ne_nil_of_mem (mem_filter.mp hp).1
  have hfirst : ∀ s, (contentDispositionFilename s filename).1 = decide ((contentDispositionFilename s filename).2 ≠ []) :=
    fun _ => rfl
  rw [← foldl_readParam_snd_eq_iff, ← finish_text h hne filename, Prod.ext_iff, hfirst]
  refine and_iff_right_of_imp fun heq => ?_
  rw [heq, decide_eq_true p.isValue.ne_nil]

/-- The header of the comment at the call in `multi_download::start`, with a parameter before the file name and one behind it. -/
def attachmentSample : Disposition where
  token := some "attachment".toList
  params :=
    [⟨"size".toList, "7".toList, true, by decide, by decide, ⟨by decide, by decide⟩⟩,
      ⟨"filename".toList, "file.zip".toList, true, by decide, by decide, ⟨by decide, by decide⟩⟩,
      ⟨"date".toList, "now".toList, true, by decide, by decide, ⟨by decide, by decide⟩⟩]
  semicolon := false
  token_ne := by decide
  token_chars := by decide

theorem contentDispositionFilename_attachment :
    attachmentSample.text = "attachment; size=\"7\"; filename=\"file.zip\"; date=\"now\"".toList ∧
      contentDispositionFilename attachmentSample.text [] = (true, "file.zip".toList) := by
  refine ⟨by decide, (contentDispositionFilename_iff attachmentSample rfl []).mpr (.inl ⟨1, ⟨_, rfl, by decide⟩, ?_, rfl⟩)⟩
  intro j hj hspells
  have hlt : j < 3 := hspells.lt
  obtain rfl : j = 2 := by omega
  obtain ⟨p, hp, hkey⟩ := hspells
  cases hp
  exact absurd hkey (by decide)

/-- The header of the comment at the function itself: the two keys make one name. -/
theorem contentDispositionFilename_comment :
    contentDispositionFilename "attachment=other; filename=\"file.zip\";".toList [] = (false, []) := by
  decide

end Avbot.Http
