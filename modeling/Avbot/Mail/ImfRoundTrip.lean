import Avbot.Mail.ImfLines
import Avbot.Mail.EncodedWord

/-!
# Writing a mail and reading it back

For a mail of a single part, what `imf_read_stream` makes of the text that `imf_write_stream` gives, and which mails come back.
-/

namespace Avbot

open List Pattern
open Str (base64Text cStr isSpace toLower trim trimRight)

namespace Imf

variable {n : Nat} {name rest value body : Str}

/-! ### A line of the header -/

variable {c : Char} {entry : Str × Str} {line key str : Str} {ms : List (Bool × Str × Str)}
    {m : Bool × Str × Str} {before after : List (Str × Str)}

theorem append_cons_cases {p t a u : Str} (hp : c ∉ p) (heq : p ++ c :: t = a ++ c :: u) :
    (a = p ∧ u = t) ∨ ∃ a', a = p ++ c :: a' ∧ t = a' ++ c :: u := by
  rcases append_eq_append_iff.mp heq with ⟨l, rfl, hl⟩ | ⟨l, rfl, hl⟩
  · cases l with
    | nil => exact .inl ⟨by simp, (cons.inj hl).2.symm⟩
    | cons d l =>
      rw [cons_append, cons.injEq] at hl
      exact .inr ⟨l, by rw [hl.1], hl.2⟩
  · cases l with
    | nil => exact .inl ⟨by simp, (cons.inj hl).2⟩
    | cons d l =>
      rw [cons_append, cons.injEq] at hl
      exact absurd (by simp [hl.1]) hp

theorem full_headerRegex_sound {what : List Str} (hname : ':' ∉ name)
    (hfull : headerRegex.full (name ++ ':' :: rest) = some what) :
    what.getD 1 [] = name ∧ ∃ c blanks, c ∈ " \t".toList ∧ rest = c :: (blanks ++ what.getD 2 []) := by
  obtain ⟨⟨ts, left⟩, hmatch, rfl⟩ := Option.map_eq_some_iff.mp hfull
  obtain ⟨hsplit, hleft, hfits⟩ := matchFront_sound hmatch
  obtain _ | ⟨h₁, _ | ⟨h₂, _ | ⟨h₃, _ | ⟨h₄, _ | _⟩⟩⟩⟩ := hfits
  rename_i key _ blanks val
  obtain rfl := Item.fits_one_eq_iff.mp h₂
  obtain rfl : left = [] := by simpa using hleft
  have hkey : ':' ∉ key := fun hmem => by simpa [Item.many] using h₁.1 ':' hmem
  have hcut : name ++ ':' :: rest = key ++ ':' :: (blanks ++ val) := by simpa using hsplit
  have heq : name = key ∧ rest = blanks ++ val := by
    rcases append_cons_cases hname hcut with ⟨rfl, rfl⟩ | ⟨a, rfl, _⟩
    · exact ⟨rfl, rfl⟩
    · exact absurd (by simp) hkey
  obtain ⟨c, blanks, rfl⟩ : ∃ c l, blanks = c :: l := by
    cases blanks with
    | nil => simpa [Item.some] using h₃.2.1
    | cons c l => exact ⟨c, l, rfl⟩
  exact ⟨by simp [Regex.what, headerRegex, heq.1], c, blanks, by simpa [Item.some] using h₃.1 c (by simp),
    by simp [Regex.what, headerRegex, heq.2]⟩

theorem full_headerRegex (hname : ':' ∉ name) (hvalue : ∀ c ∈ value.head?, c ∉ " \t".toList) :
    headerRegex.full (name ++ ':' :: ' ' :: value) = some [name ++ ':' :: ' ' :: value, name, value] := by
  have hval : matchFront isEmpty [Item.many fun _ => true] (value ++ []) = some ([value], []) :=
    matchFront_greedy (m := ([], [])) rfl rfl (by simp [Item.many]) (by simp [Item.many]) (by simp) rfl
  have hblank : matchFront isEmpty [Item.some (· ∈ " \t".toList), Item.many fun _ => true] ([' '] ++ value) =
      some ([[' '], value], []) :=
    matchFront_greedy (m := ([value], [])) rfl rfl (by simp [Item.some]) (by simp [Item.some])
      (by simpa [Item.some] using hvalue) (by simpa using hval)
  have hcolon : matchFront isEmpty headerRegex.items.tail (':' :: ([' '] ++ value)) =
      some ([[':'], [' '], value], []) := by
    rw [headerRegex, tail_cons, matchFront_one (by simp), hblank]
    rfl
  have hkey : matchFront isEmpty headerRegex.items (name ++ ':' :: ([' '] ++ value)) =
      some ([name, [':'], [' '], value], []) :=
    matchFront_greedy (m := ([[':'], [' '], value], [])) rfl rfl
      (by
        intro c hc
        simpa [Item.many] using fun h : c = ':' => hname (h ▸ hc))
      (by simp [Item.many]) (by simp [Item.many]) hcolon
  rw [Regex.full, show name ++ ':' :: ' ' :: value = name ++ ':' :: ([' '] ++ value) from rfl, hkey]
  simp [Regex.what, headerRegex]

theorem cStr_line (hname : '\x00' ∉ name) (rest : Str) : cStr (name ++ ':' :: rest) = name ++ ':' :: cStr rest := by
  have hcut := Str.cStr_append_of_not_mem (t := rest) (s := name ++ [':']) (by simpa using hname)
  simpa using hcut

theorem processLine_eq (hcolon : ':' ∉ name) (hnul : '\x00' ∉ name) (hvalue : ∀ c ∈ value.head?, c ∉ " \t".toList) :
    processLine n (name ++ ':' :: ' ' :: value) =
      (imfBase64inlineDecode n (cStr value)).map fun r => r.map fun val => (toLower name, val) := by
  have hcStr : cStr (' ' :: value) = ' ' :: cStr value :=
    Str.cStr_append_of_not_mem (s := [' ']) (by decide)
  have hhead : ∀ c ∈ (cStr value).head?, c ∉ " \t".toList := by
    cases value with
    | nil => simp [cStr]
    | cons d value =>
      intro c hc
      by_cases hd : d = '\x00'
      · simp [cStr, hd] at hc
      · obtain rfl : d = c := by simpa [cStr, hd] using hc
        exact hvalue d (by simp)
  rw [processLine, cStr_line hnul, hcStr, full_headerRegex hcolon hhead]
  rfl

theorem processLine_refuse (hcolon : ':' ∉ name) (hnul : '\x00' ∉ name) (hrest : ∀ c ∈ rest.head?, c ∉ " \t".toList) :
    processLine n (name ++ ':' :: rest) = some (.error .badExpression) := by
  rw [processLine, cStr_line hnul]
  cases hfull : headerRegex.full (name ++ ':' :: cStr rest) with
  | none => rfl
  | some what =>
    obtain ⟨_, c, blanks, hc, hcut⟩ := full_headerRegex_sound hcolon hfull
    have hhead : c ∈ rest.head? := by
      cases rest with
      | nil => simp [cStr] at hcut
      | cons d rest =>
        by_cases hd : d = '\x00'
        · simp [cStr, hd] at hcut
        · obtain ⟨rfl, _⟩ : d = c ∧ _ := by simpa [cStr, hd] using hcut
          simp
    exact absurd hc (hrest c hhead)

theorem processLine_key (hcolon : ':' ∉ name) (hnul : '\x00' ∉ name)
    (hprocess : processLine n (name ++ ':' :: rest) = some (.ok entry)) : entry.1 = toLower name := by
  rw [processLine, cStr_line hnul] at hprocess
  split at hprocess
  case h_1 what hfull =>
    obtain ⟨r, _, hr⟩ := Option.map_eq_some_iff.mp hprocess
    cases r with
    | error e => simp [Except.map] at hr
    | ok val =>
      obtain rfl : (toLower (what.getD 1 []), val) = entry := by simpa [Except.map] using hr
      rw [(full_headerRegex_sound hcolon hfull).1]
  case h_2 => simp at hprocess

theorem processLine_mono {m : Nat} (hmn : m ≤ n) {r : Except ImfExn (Str × Str)}
    (hprocess : processLine m line = some r) : processLine n line = some r := by
  rw [processLine] at hprocess ⊢
  split at hprocess
  · obtain ⟨d, hd, rfl⟩ := Option.map_eq_some_iff.mp hprocess
    rw [imfBase64inlineDecode, decodeLoop_mono hmn hd]
    rfl
  · exact hprocess

/-! ### The line of a field -/

variable {hl : Str × Str} {add : Str} {first : Bool}

theorem IsName.plain (hname : IsName name) : ':' ∉ name ∧ '\x00' ∉ name ∧ toLower name = name := by
  refine ⟨fun h => (hname.2 _ h).2.2.1 rfl, fun h => absurd (hname.2 _ h).1 (by decide), ?_⟩
  have hmap : ∀ c ∈ name, c.toLower = id c := fun c hc => dif_neg (hname.2 c hc).2.2.2
  rw [toLower, map_congr_left hmap, map_id]

def Trimmed (add : Str) : Prop :=
  add ≠ [] ∧ (∀ c ∈ add.head?, isSpace c = false) ∧ ∀ c ∈ add.getLast?, isSpace c = false

theorem trim_blank {b : Char} (hb : isSpace b = true) (hadd : Trimmed add) : trim (b :: add) = add := by
  obtain ⟨c, rest, rfl⟩ := exists_cons_of_ne_nil hadd.1
  have hc := hadd.2.1 c (by simp)
  have hright : trimRight (b :: c :: rest) = b :: c :: rest := by
    rw [Str.trimRight_eq_self_iff, getLast?_cons_cons]
    exact hadd.2.2
  rw [trim, hright, Str.trimLeft, dropWhile_cons_of_pos hb, dropWhile_cons_of_neg (by simp [hc])]

theorem lineRead_single (hadds : adds hl = [add]) (hadd : Trimmed add) :
    lineRead first hl =
      if 78 ≤ hl.1.length + 1 + add.length then
        if first then hl.1 ++ ':' :: ' ' :: '\r' :: add else hl.1 ++ ':' :: add
      else if first then hl.1 ++ ':' :: ' ' :: (add ++ ['\r']) else hl.1 ++ ':' :: ' ' :: add := by
  have hlength : (hl.1 ++ ": ".toList).length - 1 + add.length = hl.1.length + 1 + add.length := by simp
  rw [lineRead, headerLines, hadds, foldLines, hlength]
  by_cases hfold : 78 ≤ hl.1.length + 1 + add.length
  · have hname : trimRight (hl.1 ++ [':', ' ']) = hl.1 ++ [':'] := by
      rw [Str.trimRight_append_cons (by decide)]
      rfl
    rw [if_pos hfold, if_pos hfold, foldLines]
    cases first <;> simp [trim_blank (b := '\t') (by decide) hadd, hname]
  · have hline : trimRight (hl.1 ++ ':' :: ' ' :: add) = hl.1 ++ ':' :: ' ' :: add := by
      obtain ⟨c, rest, rfl⟩ := exists_cons_of_ne_nil hadd.1
      rw [Str.trimRight_eq_self_iff, getLast?_append_of_ne_nil _ (by simp), getLast?_cons_cons, getLast?_cons_cons]
      exact hadd.2.2
    rw [if_neg hfold, if_neg hfold, foldLines]
    cases first <;> simp [hline]

theorem trimmed_not_blank (hadd : Trimmed add) : ∀ c ∈ add.head?, c ∉ " \t".toList := by
  intro c hc hblank
  have hspace := hadd.2.1 c hc
  simp [isSpace] at hspace
  simp at hblank
  rcases hblank with rfl | rfl <;> simp at hspace

theorem processLine_lineRead (hname : IsName hl.1) (hadds : adds hl = [add]) (hadd : Trimmed add)
    (hprocess : processLine n (lineRead first hl) = some (.ok entry)) :
    ∃ s, imfBase64inlineDecode n (cStr s) = some (.ok entry.2) ∧
      ((first = true ∧ s = '\r' :: add) ∨ (first = true ∧ s = add ++ ['\r']) ∨
        (first = false ∧ hl.1.length + add.length < 77 ∧ s = add)) := by
  obtain ⟨hcolon, hnul, _⟩ := hname.plain
  have hread : ∀ {s : Str}, (∀ c ∈ s.head?, c ∉ " \t".toList) →
      processLine n (hl.1 ++ ':' :: ' ' :: s) = some (.ok entry) →
      imfBase64inlineDecode n (cStr s) = some (.ok entry.2) := by
    intro s hs hline
    rw [processLine_eq hcolon hnul hs] at hline
    obtain ⟨r, hr, hmap⟩ := Option.map_eq_some_iff.mp hline
    cases r with
    | error e => simp [Except.map] at hmap
    | ok val =>
      obtain rfl : (toLower hl.1, val) = entry := by simpa [Except.map] using hmap
      exact hr
  have hblank := trimmed_not_blank hadd
  obtain ⟨c, rest, rfl⟩ := exists_cons_of_ne_nil hadd.1
  rw [lineRead_single hadds hadd] at hprocess
  split at hprocess
  case isTrue hfold =>
    cases first with
    | true => exact ⟨'\r' :: c :: rest, hread (by simp) hprocess, .inl ⟨rfl, rfl⟩⟩
    | false =>
      rw [if_neg (by simp), processLine_refuse hcolon hnul hblank] at hprocess
      simp at hprocess
  case isFalse hfold =>
    cases first with
    | true =>
      exact ⟨c :: rest ++ ['\r'], hread (by simpa using hblank c (by simp)) hprocess, .inr (.inl ⟨rfl, rfl⟩)⟩
    | false => exact ⟨c :: rest, hread hblank hprocess, .inr (.inr ⟨rfl, by omega, rfl⟩)⟩

theorem IsValue.trimmed (hvalue : IsValue value) : Trimmed value := ⟨hvalue.1, hvalue.2.2⟩

/-- A field that is written as it is comes back only from a later line that is not folded, without a NUL and anything that looks like an encoded word. -/
theorem ordinary_of_processLine (hfield : IsField hl) (hadds : adds hl = [hl.2])
    (hprocess : processLine n (lineRead first hl) = some (.ok (key, hl.2))) :
    first = false ∧ hl.1.length + hl.2.length < 77 ∧ '\x00' ∉ hl.2 ∧ encodedRegex.search hl.2 = none := by
  obtain ⟨hname, hvalue⟩ := hfield
  obtain ⟨s, hdecode, hs⟩ := processLine_lineRead hname hadds hvalue.trimmed hprocess
  have hnul := Str.nul_not_mem_cStr s
  obtain ⟨tail, htail⟩ : cStr s <+: s := takeWhile_prefix _
  have hcount : (cStr s).count '?' ≤ s.count '?' := (takeWhile_sublist _).count_le '?'
  have hwords : Str.HasWord (cStr s) → Str.HasWord s := by
    intro h
    rw [← htail]
    exact Str.hasWord_append_right tail h
  rcases hs with ⟨_, rfl⟩ | ⟨_, rfl⟩ | ⟨rfl, hlength, rfl⟩
  · -- the folded first line keeps the carriage return before the value
    have heq := (eq_of_imfBase64inlineDecode hnul hdecode
      (fun h => Str.hasWord_of_append (t := ['\r']) (by decide) (hwords h)) (by simpa using hcount)).1
    have hcr : '\r' ∈ hl.2 := by
      rw [← heq]
      simp [cStr]
    exact absurd hcr hvalue.2.1.1
  · -- and the unfolded one after it
    have heq := (eq_of_imfBase64inlineDecode hnul hdecode
      (fun h => Str.hasWord_of_append_right (t := ['\r']) (by decide) (hwords h)) (by simpa using hcount)).1
    have hplain : '\x00' ∉ hl.2 := heq ▸ hnul
    rw [Str.cStr_append_of_not_mem hplain] at heq
    exact absurd (congrArg length heq) (by simp [cStr])
  · obtain ⟨heq, hnone⟩ := eq_of_imfBase64inlineDecode hnul hdecode hwords hcount
    rw [heq] at hnone hnul
    exact ⟨rfl, hlength, hnul, hnone⟩

theorem processLine_of_ordinary (hfield : IsField hl) (hadds : adds hl = [hl.2])
    (hlength : hl.1.length + hl.2.length < 77) (hnul : '\x00' ∉ hl.2) (hnone : encodedRegex.search hl.2 = none) :
    processLine (n + 1) (lineRead false hl) = some (.ok hl) := by
  obtain ⟨hcolon, hnulName, hlower⟩ := hfield.1.plain
  rw [lineRead_single hadds hfield.2.trimmed, if_neg (by omega), if_neg (by simp),
    processLine_eq hcolon hnulName (trimmed_not_blank hfield.2.trimmed), Str.cStr_eq_self_iff.mpr hnul,
    imfBase64inlineDecode_of_none hnul hnone, hlower]
  rfl

/-! ### The subject -/

theorem encodedWord_eq (str : Str) :
    encodedWord str = '=' :: '?' :: ("utf8".toList ++ '?' :: ("B".toList ++ '?' :: (base64Text str ++ ['?', '=']))) := by
  rw [encodedWord_eq_append]
  simp

theorem mem_base64Text_plain (hc : c ∈ base64Text str) : c ≠ '?' ∧ c ≠ '\x00' := by
  rcases Str.mem_base64Text hc with hc | rfl
  · exact ⟨fun h => absurd hc (by rw [h]; decide), (Str.alphabet_plain c hc).2.2.2⟩
  · decide

theorem search_encodedRegex_encode {pre post : Str} (hpre : '?' ∉ pre) (hpost : '?' ∉ post) :
    encodedRegex.search (pre ++ (encodedWord str ++ post)) = none := by
  cases hsearch : encodedRegex.search (pre ++ (encodedWord str ++ post)) with
  | none => rfl
  | some what =>
    exfalso
    obtain ⟨front, o, back, hsplit, ho, hlength, _⟩ := search_encodedRegex hsearch
    have hstr : '?' ∉ base64Text str := fun h => (mem_base64Text_plain h).1 rfl
    have hcut : (pre ++ ['=']) ++ '?' :: ("utf8".toList ++ '?' :: ("B".toList ++ '?' ::
        (base64Text str ++ '?' :: ('=' :: post)))) = (front ++ ['=']) ++ '?' :: (o ++ '?' :: '=' :: back) := by
      rw [encodedWord_eq] at hsplit
      simpa using hsplit
    have hend : '?' ∉ '=' :: post := by simpa using hpost
    -- which of the four question marks is the first of the match?
    rcases append_cons_cases (by simpa using hpre) hcut with ⟨_, hrest⟩ | ⟨front₁, hfront, hcut₁⟩
    · match o, hlength with
      | [], _ => simp at hrest
      | [c], _ => simp at hrest
    · rcases append_cons_cases (by decide) hcut₁ with ⟨rfl, _⟩ | ⟨front₂, rfl, hcut₂⟩
      · simpa using congrArg getLast? hfront
      · rcases append_cons_cases (by decide) hcut₂ with ⟨rfl, _⟩ | ⟨front₃, rfl, hcut₃⟩
        · simpa using congrArg getLast? hfront
        · rcases append_cons_cases hstr hcut₃ with ⟨_, hrest⟩ | ⟨front₄, _, hrest⟩
          · exact hend (by rw [← hrest]; simp)
          · exact hend (by rw [hrest]; simp)

theorem subject_of_processLine (hfield : IsField hl) (hadds : adds hl = [encodedWord hl.2])
    (hprocess : processLine n (lineRead first hl) = some (.ok entry)) : entry.2 ≠ hl.2 := by
  have hnul : '\x00' ∉ encodedWord hl.2 := by
    rw [encodedWord_eq]
    simpa using fun h => (mem_base64Text_plain h).2 rfl
  have htrimmed : Trimmed (encodedWord hl.2) := by
    refine ⟨by rw [encodedWord_eq]; simp, ?_, ?_⟩
    · rw [encodedWord_eq, head?_cons]
      simp [isSpace]
    · rw [encodedWord_eq_append, getLast?_append_of_ne_nil _ (by decide)]
      decide
  have hlength : hl.2.length < (encodedWord hl.2).length := by
    rw [encodedWord_eq]
    simp only [length_cons, length_append, Str.length_base64Text]
    omega
  obtain ⟨s, hdecode, hs⟩ := processLine_lineRead hfield.1 hadds htrimmed hprocess
  obtain ⟨pre, post, rfl, hpre, hpost⟩ : ∃ pre post, s = pre ++ (encodedWord hl.2 ++ post) ∧
      ('?' ∉ pre ∧ '\x00' ∉ pre) ∧ '?' ∉ post ∧ '\x00' ∉ post := by
    rcases hs with ⟨_, rfl⟩ | ⟨_, rfl⟩ | ⟨_, _, rfl⟩
    · exact ⟨['\r'], [], by simp, by decide, by decide⟩
    · exact ⟨[], ['\r'], by simp, by decide, by decide⟩
    · exact ⟨[], [], by simp, by decide, by decide⟩
  have hplain : '\x00' ∉ pre ++ (encodedWord hl.2 ++ post) := by simp [hpre.2, hnul, hpost.2]
  rw [Str.cStr_eq_self_iff.mpr hplain] at hdecode
  cases n with
  | zero => simp [imfBase64inlineDecode, decodeLoop] at hdecode
  | succ n =>
    rw [imfBase64inlineDecode_of_none hplain (search_encodedRegex_encode hpre.1 hpost.1)] at hdecode
    intro hsame
    have heq : pre ++ (encodedWord hl.2 ++ post) = hl.2 := by simpa [hsame] using hdecode
    have hlen := congrArg length heq
    rw [length_append, length_append] at hlen
    omega

/-! ### The stored header -/

def Settles (n : Nat) (line : Str) : Prop :=
  processLine n line = some (.error .badExpression) ∨ ∃ entry, processLine n line = some (.ok entry)

def entryOf (n : Nat) (line : Str) : Option (Str × Str) :=
  match processLine n line with
  | some (.ok entry) => some entry
  | _ => none

theorem entryOf_eq_some : entryOf n line = some entry ↔ processLine n line = some (.ok entry) := by
  rw [entryOf]
  split
  case h_1 heq => simp [heq]
  case h_2 hother =>
    constructor
    · intro h
      simp at h
    · intro h
      exact absurd h (hother entry)

theorem storeAll_eq_ok {header h : List (Str × Str)} {lines : List Str} :
    storeAll (processLine n) header lines = some (.ok h) ↔
      (∀ line ∈ lines, Settles n line) ∧ h = (lines.filterMap (entryOf n)).foldl insert header := by
  induction lines generalizing header with
  | nil => simp [storeAll, eq_comm]
  | cons line lines ih =>
    rw [storeAll, andThen_eq_ok, forall_mem_cons]
    have hstore : ∀ h', store (processLine n) header line = some (.ok h') ↔
        Settles n line ∧ h' = (entryOf n line).elim header (insert header) := by
      intro h'
      rcases hprocess : processLine n line with _ | ⟨e | entry⟩
      · simp [store, Settles, hprocess]
      · cases e <;> simp [store, Settles, entryOf, hprocess, eq_comm]
      · simp [store, Settles, entryOf, hprocess, eq_comm]
    constructor
    · rintro ⟨h', hline, hrest⟩
      obtain ⟨hsettles, rfl⟩ := (hstore h').mp hline
      obtain ⟨hall, rfl⟩ := ih.mp hrest
      refine ⟨⟨hsettles, hall⟩, ?_⟩
      cases hentry : entryOf n line <;> simp [hentry]
    · rintro ⟨⟨hsettles, hall⟩, rfl⟩
      refine ⟨_, (hstore _).mpr ⟨hsettles, rfl⟩, ih.mpr ⟨hall, ?_⟩⟩
      cases hentry : entryOf n line <;> simp [hentry]

theorem lookup_insert (header : List (Str × Str)) (entry : Str × Str) (key : Str) :
    (insert header entry).lookup key = (header.lookup key).or ([entry].lookup key) := by
  obtain ⟨k, v⟩ := entry
  rw [insert]
  split
  case isTrue hsome =>
    cases hkey : header.lookup key with
    | some v => simp
    | none =>
      have hne : (key == k) = false := by
        rw [beq_eq_false_iff_ne]
        rintro rfl
        simp [hkey] at hsome
      simp [lookup_cons, hne]
  case isFalse => exact lookup_append

theorem lookup_foldl_insert (header entries : List (Str × Str)) (key : Str) :
    (entries.foldl insert header).lookup key = (header.lookup key).or (entries.lookup key) := by
  induction entries generalizing header with
  | nil => simp
  | cons entry entries ih =>
    rw [foldl_cons, ih, lookup_insert, Option.or_assoc, ← lookup_append, singleton_append]

theorem getD_lookup_subscript (header : List (Str × Str)) (name key : Str) :
    ((subscript header name).2.lookup key).getD [] = (header.lookup key).getD [] := by
  rw [subscript, lookup_insert]
  cases header.lookup key with
  | some v => rfl
  | none =>
    rw [Option.none_or, lookup_cons]
    split <;> rfl

def marked (header : List (Str × Str)) : List (Bool × Str × Str) :=
  match header ++ [encodingField] with
  | [] => []
  | hl :: fields => (true, hl) :: fields.map (false, ·)

theorem readLines_eq (header : List (Str × Str)) :
    readLines header = (marked header).map fun m => lineRead m.1 m.2 := by
  rw [readLines, marked]
  cases header ++ [encodingField] with
  | nil => rfl
  | cons hl fields => simp

theorem lineRead_eq (hfield : IsField hl) : ∃ rest, lineRead first hl = hl.1 ++ ':' :: rest := by
  obtain ⟨tail, conts, hlines, _⟩ := headerLines_eq hfield
  have hcolon : trimRight (hl.1 ++ ':' :: ' ' :: tail) = hl.1 ++ ':' :: trimRight (' ' :: tail) :=
    Str.trimRight_append_cons (by decide)
  cases first with
  | true => exact ⟨' ' :: tail ++ ['\r'] ++ conts.flatMap trim, by simp [lineRead, hlines]⟩
  | false => exact ⟨trimRight (' ' :: tail) ++ conts.flatMap trim, by simp [lineRead, hlines, hcolon]⟩

theorem key_of_entryOf (hfield : IsField hl) (hentry : entryOf n (lineRead first hl) = some entry) :
    entry.1 = hl.1 := by
  obtain ⟨hcolon, hnul, hlower⟩ := hfield.1.plain
  obtain ⟨rest, hline⟩ : ∃ rest, lineRead first hl = hl.1 ++ ':' :: rest := lineRead_eq hfield
  rw [entryOf_eq_some, hline] at hentry
  rw [processLine_key hcolon hnul hentry, hlower]

theorem lookup_entries_none (hfields : ∀ m ∈ ms, IsField m.2) (hkey : ∀ m ∈ ms, m.2.1 ≠ key) :
    ((ms.map fun m => lineRead m.1 m.2).filterMap (entryOf n)).lookup key = none := by
  rw [lookup_eq_none_iff]
  intro entry hmem
  obtain ⟨line, hline, hentry⟩ := mem_filterMap.mp hmem
  obtain ⟨m', hm', rfl⟩ := mem_map.mp hline
  rw [key_of_entryOf (hfields m' hm') hentry]
  simpa using (hkey m' hm').symm

theorem lookup_entries {before after : List (Bool × Str × Str)}
    (hfields : ∀ m ∈ before, IsField m.2) (hbefore : ∀ m' ∈ before, m'.2.1 ≠ m.2.1) (hfield : IsField m.2) :
    (((before ++ m :: after).map fun m => lineRead m.1 m.2).filterMap (entryOf n)).lookup m.2.1 =
      ((entryOf n (lineRead m.1 m.2)).map Prod.snd).or
        (((after.map fun m => lineRead m.1 m.2).filterMap (entryOf n)).lookup m.2.1) := by
  have hnone : ((before.map fun m => lineRead m.1 m.2).filterMap (entryOf n)).lookup m.2.1 = none :=
    lookup_entries_none hfields hbefore
  rw [map_append, filterMap_append, lookup_append, hnone, Option.none_or, map_cons]
  cases hentry : entryOf n (lineRead m.1 m.2) with
  | none => rw [filterMap_cons_none hentry]; rfl
  | some entry =>
    obtain ⟨k, v⟩ := entry
    obtain rfl : k = m.2.1 := key_of_entryOf hfield hentry
    rw [filterMap_cons_some hentry]
    simp

/-! ### The body -/

theorem decodeBody_eq {read : Str → Option (Except ImfExn Imf)} {header : List (Str × Str)} {text : Str} {imf : Imf} :
    (decodeBody read header text = some (.ok imf) ∧ imf.body = .inl body) ↔
      (if toLower ((header.lookup "content-transfer-encoding".toList).getD []) = "base64".toList then
        Str.base64Decode text else .ok text) = .ok body ∧
        multipartRegex.search (cStr ((header.lookup "content-type".toList).getD [])) = none ∧
        imf = ⟨(subscript (subscript header "content-transfer-encoding".toList).2 "content-type".toList).2, false, .inl body⟩ := by
  have hcte : (subscript header "content-transfer-encoding".toList).1 =
      (header.lookup "content-transfer-encoding".toList).getD [] := rfl
  have hct : (subscript (subscript header "content-transfer-encoding".toList).2 "content-type".toList).1 =
      (header.lookup "content-type".toList).getD [] := getD_lookup_subscript header _ _
  simp only [decodeBody, hcte]
  cases (if toLower ((header.lookup "content-transfer-encoding".toList).getD []) = "base64".toList then
    Str.base64Decode text else .ok text) with
  | error e => simp
  | ok decoded =>
    simp only [imfDecodeMultipart, hct]
    cases multipartRegex.search (cStr ((header.lookup "content-type".toList).getD [])) with
    | some what =>
      simp only [Option.map_eq_some_iff]
      constructor
      · rintro ⟨⟨r, _, hr⟩, hbody⟩
        cases r with
        | error e => simp [Except.map] at hr
        | ok mime =>
          rw [Except.map, Except.ok.injEq] at hr
          simp [← hr] at hbody
      · rintro ⟨_, hnone, _⟩
        simp at hnone
    | none =>
      constructor
      · rintro ⟨himf, hbody⟩
        rw [Option.some.injEq, Except.ok.injEq] at himf
        subst himf
        obtain rfl : decoded = body := Sum.inl.inj hbody
        exact ⟨rfl, rfl, rfl⟩
      · rintro ⟨hdecoded, _, rfl⟩
        rw [Except.ok.injEq] at hdecoded
        exact ⟨by rw [hdecoded], rfl⟩

theorem body_iff {cte : Str} (hne : body ≠ []) (hbytes : ∀ c ∈ body, c.toNat < 256) :
    (if toLower cte = "base64".toList then Str.base64Decode (bodyRead (Str.base64TextLines 78 body))
      else .ok (bodyRead (Str.base64TextLines 78 body))) = .ok body ↔
      toLower cte = "base64".toList ∧ body.length % 3 = 0 := by
  obtain ⟨front, nl, hread, hfront, hlast, hnl, _⟩ := bodyRead_eq hne
  by_cases hbase : toLower cte = "base64".toList
  · rw [if_pos hbase, hread, Str.base64Decode_eq_ok_iff hne hbytes hfront hlast hnl]
    exact ⟨fun h => ⟨hbase, h⟩, fun h => h.2⟩
  · rw [if_neg hbase]
    constructor
    · intro hsame
      rw [Except.ok.injEq] at hsame
      have hlt := length_lt_bodyRead hne
      rw [hsame] at hlt
      omega
    · intro h
      exact absurd h.1 hbase

/-! ### Which mails come back -/

structure SinglePart (imf : Imf) (body : Str) : Prop where
  haveMultipart : imf.haveMultipart = false
  body_eq : imf.body = .inl body
  body_ne_nil : body ≠ []
  body_bytes : ∀ c ∈ body, c.toNat < 256
  names_nodup : (imf.header.map Prod.fst).Nodup
  fields : ∀ hl ∈ imf.header, IsField hl

def uncompared : List Str := ["from".toList, "to".toList, "content-transfer-encoding".toList]

def ReadsBack (imf : Imf) : Prop :=
  ∃ text n imf', imfWriteStream imf = .ok text ∧ imfReadStream n text = some (.ok imf') ∧ imf'.body = imf.body ∧
    ∀ name ∉ uncompared, (imf'.header.lookup name).getD [] = (imf.header.lookup name).getD []

/-- The field can be written, and `process_line` gets through the line that is read for it. -/
def LineEnds (first : Bool) (hl : Str × Str) : Prop :=
  Encodable hl ∧ ∃ n, Settles n (lineRead first hl) ∧
    (hl.1 = "content-transfer-encoding".toList →
      ∀ entry, entryOf n (lineRead first hl) = some entry → toLower entry.2 = "base64".toList)

/-- No subject, short enough not to be folded, without a NUL and without anything that looks like an encoded word or makes the mail one of several parts. -/
def ReadableField (hl : Str × Str) : Prop :=
  if hl.1 ∈ uncompared then LineEnds false hl
  else
    hl.1 ≠ "subject".toList ∧ hl.1.length + hl.2.length < 77 ∧ '\x00' ∉ hl.2 ∧ encodedRegex.search hl.2 = none ∧
      (hl.1 = "content-type".toList → multipartRegex.search hl.2 = none)

theorem ReadableField.plain (hname : hl.1 ∉ uncompared) (hreadable : ReadableField hl) :
    hl.1 ≠ "subject".toList ∧ hl.1.length + hl.2.length < 77 ∧ '\x00' ∉ hl.2 ∧ encodedRegex.search hl.2 = none ∧
      (hl.1 = "content-type".toList → multipartRegex.search hl.2 = none) := by
  rwa [ReadableField, if_neg hname] at hreadable

def entries (n : Nat) (header : List (Str × Str)) : List (Str × Str) :=
  ((marked header).map fun m => lineRead m.1 m.2).filterMap (entryOf n)

structure HeaderReadsBack (n : Nat) (header : List (Str × Str)) : Prop where
  encodable : ∀ hl ∈ header, Encodable hl
  settles : ∀ m ∈ marked header, Settles n (lineRead m.1 m.2)
  base64 : toLower (((entries n header).lookup "content-transfer-encoding".toList).getD []) = "base64".toList
  single : multipartRegex.search (cStr (((entries n header).lookup "content-type".toList).getD [])) = none
  values : ∀ name ∉ uncompared, ((entries n header).lookup name).getD [] = (header.lookup name).getD []

variable {imf : Imf} {header : List (Str × Str)}

theorem imfWriteStream_eq_ok_iff (hmail : SinglePart imf body) {text : Str} :
    imfWriteStream imf = .ok text ↔ (∀ hl ∈ imf.header, Encodable hl) ∧ body.length < 4294967298 ∧
      headerText imf.header ++ "content-transfer-encoding: base64\r\n\r\n".toList ++ Str.base64TextLines 78 body = text := by
  rw [imfWriteStream, hmail.haveMultipart, if_neg (by simp), hmail.body_eq]
  by_cases hall : ∀ hl ∈ imf.header, Encodable hl
  · rw [foldlM_writeHeader hall, Fallible.ok_bind]
    dsimp only
    by_cases hshort : body.length < 4294967298
    · rw [Boost.base64EncodeLines_eq (by decide) hshort, Fallible.ok_bind]
      exact ⟨fun h => ⟨hall, hshort, Except.ok.inj h⟩, fun h => congrArg Except.ok h.2.2⟩
    · rw [Boost.base64EncodeLines_of_long (by omega), Fallible.error_bind]
      exact ⟨fun h => (Fallible.ok_ne_error _ h.symm).elim, fun h => absurd h.2.1 hshort⟩
  · rw [foldlM_writeHeader_of_not hall, Fallible.error_bind]
    exact ⟨fun h => (Fallible.ok_ne_error _ h.symm).elim, fun h => absurd h.1 hall⟩

theorem readsBack_iff_entries (hmail : SinglePart imf body) :
    ReadsBack imf ↔
      body.length % 3 = 0 ∧ body.length < 4294967298 ∧ ∃ n, HeaderReadsBack (n + 1) imf.header := by
  have hlookup : ∀ n key, ((entries n imf.header).foldl insert []).lookup key = (entries n imf.header).lookup key :=
    fun n key => by rw [lookup_foldl_insert, lookup_nil, Option.none_or]
  have hstore : ∀ n h, storeAll (processLine n) [] (readLines imf.header) = some (.ok h) ↔
      (∀ m ∈ marked imf.header, Settles n (lineRead m.1 m.2)) ∧ h = (entries n imf.header).foldl insert [] := by
    intro n h
    rw [readLines_eq, storeAll_eq_ok, forall_mem_map]
    rfl
  constructor
  · rintro ⟨text, n, imf', htext, hread, hbody, hvalues⟩
    obtain ⟨hall, hshort, rfl⟩ := (imfWriteStream_eq_ok_iff hmail).mp htext
    cases n with
    | zero => simp [imfReadStream, imfReadStreamWith] at hread
    | succ n =>
      rw [imfReadStream, imfReadStreamWith_write hmail.fields hmail.body_ne_nil, andThen_eq_ok] at hread
      obtain ⟨h, hh, hdecode⟩ := hread
      obtain ⟨hsettles, rfl⟩ := (hstore _ h).mp hh
      obtain ⟨hdecoded, hsingle, rfl⟩ := decodeBody_eq.mp ⟨hdecode, hbody.trans hmail.body_eq⟩
      simp only [hlookup] at hdecoded hsingle
      obtain ⟨hbase, hwhole⟩ := (body_iff hmail.body_ne_nil hmail.body_bytes).mp hdecoded
      refine ⟨hwhole, hshort, n, hall, hsettles, hbase, hsingle, ?_⟩
      intro name hname
      rw [← hvalues name hname, getD_lookup_subscript, getD_lookup_subscript, hlookup]
  · rintro ⟨hwhole, hshort, n, hall, hsettles, hbase, hsingle, hvalues⟩
    have hwrite := (imfWriteStream_eq_ok_iff hmail).mpr ⟨hall, hshort, rfl⟩
    have hdecoded := (body_iff hmail.body_ne_nil hmail.body_bytes).mpr ⟨hbase, hwhole⟩
    simp only [← hlookup] at hdecoded hsingle
    obtain ⟨hdecode, hbody⟩ := decodeBody_eq.mpr ⟨hdecoded, hsingle, rfl⟩
    refine ⟨_, n + 1, _, hwrite, ?_, hbody.trans hmail.body_eq.symm, ?_⟩
    · rw [imfReadStream, imfReadStreamWith_write hmail.fields hmail.body_ne_nil, andThen_eq_ok]
      exact ⟨_, (hstore _ _).mpr ⟨hsettles, rfl⟩, hdecode⟩
    · intro name hname
      rw [← hvalues name hname, getD_lookup_subscript, getD_lookup_subscript, hlookup]

theorem marked_split (before after : List (Str × Str)) (hl : Str × Str) :
    ∃ pre post, marked (before ++ hl :: after) = pre ++ (before.isEmpty, hl) :: post ∧
      pre.map Prod.snd = before ∧ post.map Prod.snd = after ++ [encodingField] := by
  cases before with
  | nil => exact ⟨[], (after ++ [encodingField]).map (false, ·), rfl, rfl, by simp [Function.comp_def]⟩
  | cons hl' before =>
    refine ⟨(true, hl') :: before.map (false, ·), (after ++ [encodingField]).map (false, ·), ?_, ?_, ?_⟩
    · simp [marked]
    · simp [Function.comp_def]
    · simp [Function.comp_def]

variable (n) in
theorem lookup_of_split (hfields : ∀ hl' ∈ before ++ hl :: after, IsField hl')
    (hnodup : ((before ++ hl :: after).map Prod.fst).Nodup) :
    (∀ entry, entryOf n (lineRead before.isEmpty hl) = some entry →
        (entries n (before ++ hl :: after)).lookup hl.1 = some entry.2) ∧
      (hl.1 ≠ "content-transfer-encoding".toList →
        (entries n (before ++ hl :: after)).lookup hl.1 =
          (entryOf n (lineRead before.isEmpty hl)).map Prod.snd) := by
  obtain ⟨pre, post, hmarked, hpre, hpost⟩ := marked_split before after hl
  have hpreFields : ∀ m ∈ pre, IsField m.2 := by
    intro m hm
    exact hfields m.2 (by rw [← hpre]; simp [mem_map_of_mem hm])
  rw [map_append, map_cons, nodup_append, nodup_cons] at hnodup
  have hpreNames : ∀ m ∈ pre, m.2.1 ≠ hl.1 := by
    intro m hm
    have hmem : m.2.1 ∈ before.map Prod.fst := by
      rw [← hpre]
      exact mem_map_of_mem (mem_map_of_mem hm)
    exact hnodup.2.2 _ hmem _ (by simp)
  have hfield : IsField ((before.isEmpty, hl) : Bool × Str × Str).2 := hfields hl (by simp)
  rw [entries, hmarked, lookup_entries hpreFields hpreNames hfield]
  constructor
  · intro entry hentry
    rw [hentry]
    rfl
  · intro hname
    have hlater : ((post.map fun m => lineRead m.1 m.2).filterMap (entryOf n)).lookup hl.1 = none := by
      have hlaterFields : ∀ m ∈ post, m.2 ∈ after ++ [encodingField] := fun m hm => hpost ▸ mem_map_of_mem hm
      refine lookup_entries_none (fun m hm => ?_) fun m hm => ?_
      · exact isField_of_mem_append (fun hl' h => hfields hl' (by simp [h])) m.2 (hlaterFields m hm)
      · rcases mem_append.mp (hlaterFields m hm) with hmem | hmem
        · intro heq
          exact hnodup.2.1.1 (heq ▸ mem_map_of_mem hmem)
        · rw [mem_singleton.mp hmem]
          exact hname.symm
    rw [hlater, Option.or_none]

theorem lookup_of_mem_nodup (hnodup : ((before ++ hl :: after).map Prod.fst).Nodup) :
    (before ++ hl :: after).lookup hl.1 = some hl.2 := by
  rw [map_append, map_cons, nodup_append] at hnodup
  rw [lookup_eq_some_iff]
  refine ⟨before, after, rfl, ?_⟩
  intro p hp
  simpa using (hnodup.2.2 _ (mem_map_of_mem hp) _ (by simp)).symm

theorem adds_of_compared (hname : hl.1 ∉ uncompared) :
    adds hl = if hl.1 = "subject".toList then [encodedWord hl.2] else [hl.2] := by
  have haddress : ¬ (hl.1 = "from".toList ∨ hl.1 = "to".toList) := by
    rintro (h | h) <;> exact hname (by rw [h]; decide)
  rw [adds, if_neg haddress]

theorem field_of_entries (hfields : ∀ hl' ∈ before ++ hl :: after, IsField hl')
    (hnodup : ((before ++ hl :: after).map Prod.fst).Nodup) (hback : HeaderReadsBack n (before ++ hl :: after)) :
    (hl.1 ∈ uncompared ∧ LineEnds before.isEmpty hl) ∨
      (before.isEmpty = false ∧ hl.1 ∉ uncompared ∧ ReadableField hl) := by
  obtain ⟨hall, hsettles, hbase, hsingle, hvalues⟩ := hback
  obtain ⟨hsome, hvalue⟩ := lookup_of_split n hfields hnodup
  have hfield := hfields hl (by simp)
  by_cases hname : hl.1 ∈ uncompared
  · obtain ⟨pre, post, hmarked, _, _⟩ := marked_split before after hl
    refine .inl ⟨hname, hall hl (by simp), n, hsettles (before.isEmpty, hl) (by simp [hmarked]), ?_⟩
    intro hcte entry hentry
    have hlookup := hsome entry hentry
    rw [hcte] at hlookup
    rwa [hlookup] at hbase
  · right
    have hback := hvalues hl.1 hname
    rw [hvalue (fun h => hname (by rw [h]; decide)), lookup_of_mem_nodup hnodup, Option.getD_some] at hback
    obtain ⟨entry, hentry, hsame⟩ : ∃ entry, entryOf n (lineRead before.isEmpty hl) = some entry ∧ entry.2 = hl.2 := by
      cases hentry : entryOf n (lineRead before.isEmpty hl) with
      | none =>
        rw [hentry] at hback
        exact absurd hback.symm hfield.2.1
      | some entry =>
        rw [hentry] at hback
        exact ⟨entry, rfl, hback⟩
    rw [entryOf_eq_some] at hentry
    have hsubject : hl.1 ≠ "subject".toList := by
      intro h
      have hadds : adds hl = [encodedWord hl.2] := by rw [adds_of_compared hname, if_pos h]
      exact subject_of_processLine hfield hadds hentry hsame
    have hadds : adds hl = [hl.2] := by rw [adds_of_compared hname, if_neg hsubject]
    obtain ⟨key, v⟩ := entry
    obtain rfl : v = hl.2 := hsame
    obtain ⟨hfirst, hlength, hnul, hnone⟩ := ordinary_of_processLine hfield hadds hentry
    refine ⟨hfirst, hname, ?_⟩
    rw [ReadableField, if_neg hname]
    refine ⟨hsubject, hlength, hnul, hnone, ?_⟩
    intro htype
    have hlookup := hsome _ (entryOf_eq_some.mpr hentry)
    rw [htype] at hlookup
    rwa [hlookup, Option.getD_some, Str.cStr_eq_self_iff.mpr hnul] at hsingle

def Good (n : Nat) (m : Bool × Str × Str) : Prop :=
  Settles n (lineRead m.1 m.2) ∧
    (m.2.1 = "content-transfer-encoding".toList →
      ∀ entry, entryOf n (lineRead m.1 m.2) = some entry → toLower entry.2 = "base64".toList) ∧
    (m.2.1 ∉ uncompared → entryOf n (lineRead m.1 m.2) = some m.2)

theorem good_mono {k : Nat} (hkn : k ≤ n) (hgood : Good k m) : Good n m := by
  have hsame : processLine n (lineRead m.1 m.2) = processLine k (lineRead m.1 m.2) := by
    rcases hgood.1 with h | ⟨entry, h⟩ <;> rw [h, processLine_mono hkn h]
  simpa only [Good, Settles, entryOf, hsame] using hgood

theorem exists_good (hms : ∀ m ∈ ms, ∃ n, Good n m) : ∃ n, ∀ m ∈ ms, Good n m := by
  induction ms with
  | nil => exact ⟨0, by simp⟩
  | cons m ms ih =>
    obtain ⟨k, hk⟩ := hms m (by simp)
    obtain ⟨l, hl⟩ := ih fun m' h => hms m' (by simp [h])
    refine ⟨max k l, ?_⟩
    intro m' hm'
    rcases mem_cons.mp hm' with rfl | hm'
    · exact good_mono (le_max_left k l) hk
    · exact good_mono (le_max_right k l) (hl m' hm')

theorem good_of_lineEnds (hname : hl.1 ∈ uncompared) (hends : LineEnds first hl) : ∃ n, Good n (first, hl) := by
  obtain ⟨_, n, hsettles, hbase⟩ := hends
  exact ⟨n, hsettles, hbase, fun h => absurd hname h⟩

theorem good_of_entry (hprocess : processLine n (lineRead first hl) = some (.ok hl))
    (hbase : hl.1 = "content-transfer-encoding".toList → toLower hl.2 = "base64".toList) :
    Good n (first, hl) := by
  have hentry : entryOf n (lineRead first hl) = some hl := entryOf_eq_some.mpr hprocess
  refine ⟨.inr ⟨hl, hprocess⟩, ?_, fun _ => hentry⟩
  intro hcte entry h
  obtain rfl : hl = entry := Option.some.inj (hentry.symm.trans h)
  exact hbase hcte

theorem good_encodingField : Good 1 (false, encodingField) :=
  good_of_entry (processLine_of_ordinary isField_encodingField (by decide) (by decide) (by decide) (by decide))
    (fun _ => by decide)

theorem good_of_readable (hfield : IsField hl) (hreadable : ReadableField hl) : ∃ n, Good n (false, hl) := by
  rw [ReadableField] at hreadable
  split at hreadable
  case isTrue hname => exact good_of_lineEnds hname hreadable
  case isFalse hname =>
    obtain ⟨hsubject, hlength, hnul, hnone, _⟩ := hreadable
    have hadds : adds hl = [hl.2] := by rw [adds_of_compared hname, if_neg hsubject]
    exact ⟨1, good_of_entry (processLine_of_ordinary hfield hadds hlength hnul hnone)
      fun h => absurd (by rw [h]; decide) hname⟩

theorem mem_marked (hm : m ∈ marked header) : m.2 ∈ header ++ [encodingField] := by
  rw [marked] at hm
  split at hm
  case h_1 => simp at hm
  case h_2 hl fields hcons =>
    rw [hcons]
    rcases mem_cons.mp hm with rfl | hm
    · simp
    · obtain ⟨hl', hl'mem, rfl⟩ := mem_map.mp hm
      simp [hl'mem]

theorem encodingField_mem_marked (hne : header ≠ []) : (false, encodingField) ∈ marked header := by
  obtain ⟨hl, fields, rfl⟩ := exists_cons_of_ne_nil hne
  simp [marked]

theorem entries_of_good (hfields : ∀ hl ∈ header, IsField hl) (hnodup : (header.map Prod.fst).Nodup) (hne : header ≠ [])
    (hgood : ∀ m ∈ marked header, Good (n + 1) m) :
    toLower (((entries (n + 1) header).lookup "content-transfer-encoding".toList).getD []) = "base64".toList ∧
      ∀ name ∉ uncompared, ((entries (n + 1) header).lookup name).getD [] = (header.lookup name).getD [] := by
  have hmarked : ∀ m ∈ marked header, IsField m.2 := fun m hm => isField_of_mem_append hfields m.2 (mem_marked hm)
  constructor
  · have hentry : encodingField ∈ entries (n + 1) header := by
      refine mem_filterMap.mpr ⟨_, mem_map_of_mem (encodingField_mem_marked hne), ?_⟩
      exact entryOf_eq_some.mpr (processLine_of_ordinary isField_encodingField (by decide) (by decide) (by decide) (by decide))
    cases hlookup : (entries (n + 1) header).lookup "content-transfer-encoding".toList with
    | none =>
      have hkey := lookup_eq_none_iff.mp hlookup encodingField hentry
      exact absurd hkey (by decide)
    | some w =>
      obtain ⟨l₁, l₂, hsplit, _⟩ := lookup_eq_some_iff.mp hlookup
      have hmem : ("content-transfer-encoding".toList, w) ∈ entries (n + 1) header := by simp [hsplit]
      obtain ⟨line, hline, hw⟩ := mem_filterMap.mp hmem
      obtain ⟨m, hm, rfl⟩ := mem_map.mp hline
      exact (hgood m hm).2.1 (key_of_entryOf (hmarked m hm) hw).symm _ hw
  · intro name hname
    cases hlookup : header.lookup name with
    | none =>
      have hnone : (entries (n + 1) header).lookup name = none := by
        refine lookup_entries_none hmarked ?_
        intro m hm
        rcases mem_append.mp (mem_marked hm) with hmem | hmem
        · exact (by simpa using lookup_eq_none_iff.mp hlookup m.2 hmem : name ≠ m.2.1).symm
        · rw [mem_singleton.mp hmem]
          rintro rfl
          exact hname (by decide)
      rw [hnone]
    | some v =>
      obtain ⟨l₁, l₂, rfl, _⟩ := lookup_eq_some_iff.mp hlookup
      obtain ⟨pre, post, hsplit, _, _⟩ := marked_split l₁ l₂ (name, v)
      have hentry := (hgood (l₁.isEmpty, name, v) (by simp [hsplit])).2.2 hname
      rw [(lookup_of_split (n + 1) hfields hnodup).1 _ hentry]

theorem entryOf_firstEncoding : entryOf (n + 1) (lineRead true encodingField) =
    some ("content-transfer-encoding".toList, "base64\r".toList) := by
  have hline : lineRead true encodingField = "content-transfer-encoding".toList ++ ':' :: ' ' :: "base64\r".toList := by
    decide
  have hcStr : cStr "base64\r".toList = "base64\r".toList := by decide
  have hlower : toLower "content-transfer-encoding".toList = "content-transfer-encoding".toList := by decide
  rw [entryOf_eq_some, hline, processLine_eq (by decide) (by decide) (by decide), hcStr,
    imfBase64inlineDecode_of_none (by decide) (by decide), hlower]
  rfl

theorem readable_of_entries (hfields : ∀ hl ∈ header, IsField hl) (hnodup : (header.map Prod.fst).Nodup)
    (hback : HeaderReadsBack (n + 1) header) :
    ∃ hl fields, header = hl :: fields ∧ hl.1 ∈ uncompared ∧ LineEnds true hl ∧
      ∀ hl' ∈ fields, ReadableField hl' := by
  cases header with
  | nil =>
    -- then the line of the encoding is the first one and keeps its carriage return
    have hentries : entries (n + 1) [] = [("content-transfer-encoding".toList, "base64\r".toList)] := by
      simp [entries, marked, entryOf_firstEncoding]
    have hbase := hback.base64
    rw [hentries] at hbase
    exact absurd hbase (by decide)
  | cons hl fields =>
    have hspec : ∀ before after (hl' : Str × Str), hl :: fields = before ++ hl' :: after →
        (hl'.1 ∈ uncompared ∧ LineEnds before.isEmpty hl') ∨
          (before.isEmpty = false ∧ hl'.1 ∉ uncompared ∧ ReadableField hl') := by
      intro before after hl' hsplit
      rw [hsplit] at hfields hnodup hback
      exact field_of_entries hfields hnodup hback
    obtain ⟨hname, hends⟩ | ⟨hempty, _⟩ := hspec [] fields hl rfl
    · refine ⟨hl, fields, rfl, hname, hends, ?_⟩
      intro hl' hmem
      obtain ⟨before, after, rfl⟩ := append_of_mem hmem
      rcases hspec (hl :: before) after hl' rfl with ⟨hname', hends'⟩ | ⟨_, _, hreadable⟩
      · rw [ReadableField, if_pos hname']
        exact hends'
      · exact hreadable
    · simp at hempty

section Readable

variable {fields : List (Str × Str)}

theorem exists_good_of_readable (hfields : ∀ hl' ∈ hl :: fields, IsField hl') (hname : hl.1 ∈ uncompared)
    (hends : LineEnds true hl) (hreadable : ∀ hl' ∈ fields, ReadableField hl') :
    ∃ n, ∀ m ∈ marked (hl :: fields), Good (n + 1) m := by
  obtain ⟨n, hgood⟩ : ∃ n, ∀ m ∈ marked (hl :: fields), Good n m := by
    refine exists_good ?_
    intro m hm
    rcases mem_cons.mp (show m ∈ (true, hl) :: (fields ++ [encodingField]).map (false, ·) from hm) with rfl | hm
    · exact good_of_lineEnds hname hends
    · obtain ⟨hl', hmem, rfl⟩ := mem_map.mp hm
      rcases mem_append.mp hmem with hmem | hmem
      · exact good_of_readable (hfields hl' (by simp [hmem])) (hreadable hl' hmem)
      · rw [mem_singleton.mp hmem]
        exact ⟨1, good_encodingField⟩
  exact ⟨n, fun m hm => good_mono (Nat.le_succ n) (hgood m hm)⟩

theorem encodable_of_readable (hreadable : ReadableField hl) : Encodable hl := by
  by_cases hname : hl.1 ∈ uncompared
  · rw [ReadableField, if_pos hname] at hreadable
    exact hreadable.1
  · have haddress : ¬ (hl.1 = "from".toList ∨ hl.1 = "to".toList) := by
      rintro (h | h) <;> exact hname (by rw [h]; decide)
    rw [Encodable, encodedTexts, if_neg haddress, if_neg (hreadable.plain hname).1]
    simp

theorem search_multipart_of_readable (hname : hl.1 ∈ uncompared) (hreadable : ∀ hl' ∈ fields, ReadableField hl') :
    multipartRegex.search (cStr (((hl :: fields).lookup "content-type".toList).getD [])) = none := by
  cases hlookup : (hl :: fields).lookup "content-type".toList with
  | none => decide
  | some v =>
    obtain ⟨l₁, l₂, hsplit, _⟩ := lookup_eq_some_iff.mp hlookup
    have hmem : ("content-type".toList, v) ∈ hl :: fields := by simp [hsplit]
    rcases mem_cons.mp hmem with rfl | hmem
    · exact absurd hname (show "content-type".toList ∉ uncompared by decide)
    · obtain ⟨_, _, hnul, _, hsingle⟩ := (hreadable _ hmem).plain (show "content-type".toList ∉ uncompared by decide)
      rw [Option.getD_some, Str.cStr_eq_self_iff.mpr hnul]
      exact hsingle rfl

end Readable

/-- A mail of one part comes back exactly if its body needs no filling and is not too long, and its header is first a field that need not come back, then only readable ones. -/
theorem readsBack_iff {imf : Imf} {body : Str} (hmail : SinglePart imf body) :
    ReadsBack imf ↔
      body.length % 3 = 0 ∧ body.length < 4294967298 ∧
        ∃ hl fields, imf.header = hl :: fields ∧ hl.1 ∈ uncompared ∧ LineEnds true hl ∧
          ∀ hl' ∈ fields, ReadableField hl' := by
  rw [readsBack_iff_entries hmail]
  obtain ⟨_, _, _, _, hnodup, hfields⟩ := hmail
  constructor
  · rintro ⟨hwhole, hshort, n, hback⟩
    exact ⟨hwhole, hshort, readable_of_entries hfields hnodup hback⟩
  · rintro ⟨hwhole, hshort, hl, fields, hheader, hname, hends, hreadable⟩
    rw [hheader] at hnodup hfields ⊢
    have hall : ∀ hl' ∈ hl :: fields, Encodable hl' :=
      forall_mem_cons.mpr ⟨hends.1, fun hl' hmem => encodable_of_readable (hreadable hl' hmem)⟩
    obtain ⟨n, hgood⟩ := exists_good_of_readable hfields hname hends hreadable
    obtain ⟨hbase, hvalues⟩ := entries_of_good hfields hnodup (by simp) hgood
    refine ⟨hwhole, hshort, n, hall, fun m hm => (hgood m hm).1, hbase, ?_, hvalues⟩
    rw [hvalues "content-type".toList (by decide)]
    exact search_multipart_of_readable hname hreadable

def sampleMail : Imf :=
  ⟨[("to".toList, "a@b".toList), ("x-a".toList, "hello".toList)], false, .inl "abcdef".toList⟩

theorem singlePart_sampleMail : SinglePart sampleMail "abcdef".toList := by
  refine ⟨rfl, rfl, by decide, by decide, by decide, ?_⟩
  simp only [sampleMail, forall_mem_cons, IsField, IsName, IsValue]
  decide

theorem readsBack_sampleMail : ReadsBack sampleMail := by
  refine (readsBack_iff singlePart_sampleMail).mpr ⟨by decide, by decide, _, _, rfl, by decide, ?_, ?_⟩
  · refine ⟨by decide, 1, .inr ⟨("to".toList, "a@b; \r".toList), by decide +kernel⟩, fun h => absurd h (by decide)⟩
  · intro hl hmem
    rw [mem_singleton.mp hmem, ReadableField, if_neg (by decide)]
    exact ⟨by decide, by decide, by decide, by decide, fun h => absurd h (by decide)⟩

def subjectMail : Imf :=
  ⟨[("to".toList, "a@b".toList), ("subject".toList, "hi".toList)], false, .inl "abc".toList⟩

theorem singlePart_subjectMail : SinglePart subjectMail "abc".toList := by
  refine ⟨rfl, rfl, by decide, by decide, by decide, ?_⟩
  simp only [subjectMail, forall_mem_cons, IsField, IsName, IsValue]
  decide

theorem subjectMail_not_readsBack : SinglePart subjectMail "abc".toList ∧ ¬ ReadsBack subjectMail := by
  refine ⟨singlePart_subjectMail, fun hreads => ?_⟩
  obtain ⟨_, _, n, hback⟩ := (readsBack_iff_entries singlePart_subjectMail).mp hreads
  have hheader : subjectMail.header = [("to".toList, "a@b".toList)] ++ ("subject".toList, "hi".toList) :: [] := rfl
  have hfields := singlePart_subjectMail.fields
  have hnodup := singlePart_subjectMail.names_nodup
  rw [hheader] at hfields hnodup hback
  rcases field_of_entries hfields hnodup hback with ⟨hname, _⟩ | ⟨_, hname, hreadable⟩
  · exact absurd hname (by decide)
  · exact (hreadable.plain hname).1 rfl

end Imf

end Avbot
