import Avbot.Mail.ImfTermination

/-!
# Reading a folded header and a body

A mail as other programs send it: the values of its fields are folded at single blanks, and all lines end in CRLF. `imf_read_stream` does not trim the very first line, puts the lines of a field together without the blank, and reads one more empty line at the end of the body.
-/

namespace Avbot

open List Except
open Str (crlf trimRight)

namespace Imf

structure FoldedField where
  name : Str
  chunk : Str
  chunks : List Str
  isName : IsName name
  isValue : ∀ c ∈ chunk :: chunks, IsValue c

namespace FoldedField

def value (f : FoldedField) : Str := f.chunk ++ f.chunks.flatMap (' ' :: ·)

def block (f : FoldedField) : Str × List Str := (f.name ++ ':' :: ' ' :: f.chunk, f.chunks.map (' ' :: ·))

def valueRead (first : Bool) (f : FoldedField) : Str := f.chunk ++ (if first then ['\r'] else []) ++ f.chunks.flatten

end FoldedField

def bodyText (body : List Str) : Str := body.flatMap (· ++ crlf)

def mailText (fields : List FoldedField) (body : List Str) : Str :=
  bodyText ((fields.map FoldedField.block).flatMap blockLines ++ [] :: body)

def Stores (fields : List FoldedField) (body : List Str) : Prop :=
  ∃ n imf, imfReadStream n (mailText fields body) = some (.ok imf) ∧
    (∀ f ∈ fields, imf.header.lookup f.name = some f.value) ∧ imf.body = .inl (bodyText body)

namespace FoldedField

variable (f : FoldedField)

theorem isBlock : IsBlock f.block := by
  have hchunk := f.isValue f.chunk (by simp)
  have hcolon : trimRight (f.name ++ ':' :: ' ' :: f.chunk) = f.name ++ ':' :: trimRight (' ' :: f.chunk) :=
    Str.trimRight_append_cons (by decide)
  obtain ⟨c, name, hname⟩ := exists_cons_of_ne_nil f.isName.1
  refine ⟨?_, ?_, ?_⟩
  · rw [block, hcolon]
    simp
  · rw [block, hcolon, hname]
    simpa using isSpace_of_isName f.isName c (by simp [hname])
  · intro l hl
    obtain ⟨chunk, hmem, rfl⟩ := mem_map.mp hl
    have hvalue := f.isValue chunk (by simp [hmem])
    obtain ⟨d, rest, rfl⟩ := exists_cons_of_ne_nil hvalue.1
    exact ⟨' ', d :: rest, rfl, by decide, d, by simp, hvalue.2.2.1 d (by simp)⟩

theorem trimRight_name_line : trimRight (f.name ++ ':' :: ' ' :: f.chunk) = f.name ++ ':' :: ' ' :: f.chunk := by
  have hchunk := f.isValue f.chunk (by simp)
  rw [Str.trimRight_eq_self_iff]
  intro c hc
  obtain ⟨d, rest, hcons⟩ := exists_cons_of_ne_nil hchunk.1
  rw [hcons, getLast?_append_cons, getLast?_cons_cons, getLast?_cons_cons, ← hcons] at hc
  exact hchunk.2.2.2 c hc

theorem blockRead_eq (first : Bool) : blockRead first f.block = f.name ++ ':' :: ' ' :: f.valueRead first := by
  have htrim : (f.chunks.map (' ' :: ·)).flatMap Str.trim = f.chunks.flatten := by
    rw [flatMap_map, ← flatMap_id]
    refine flatMap_congr fun chunk hmem => ?_
    exact trim_blank (by decide) (f.isValue chunk (by simp [hmem])).trimmed
  cases first <;> simp [blockRead, block, htrim, valueRead, trimRight_name_line]

end FoldedField

theorem lookup_insert_of_some {header : List (Str × Str)} {key v : Str} (hkey : header.lookup key = some v)
    (entry : Str × Str) : (insert header entry).lookup key = some v := by
  rw [lookup_insert, hkey]
  rfl

section Kept

variable {n : Nat} {key v : Str} {header : List (Str × Str)}

variable {b : Option Str} {imf : Imf}

theorem lookup_readLoop {h : List (Str × Str)} {preLine : Str} {lines : List Str}
    (hread : readLoop (processLine n) header preLine lines = some (.ok (h, b))) (hkey : header.lookup key = some v) :
    h.lookup key = some v := by
  induction lines generalizing header preLine with
  | nil =>
    obtain ⟨rfl, _⟩ : header = h ∧ none = b := by simpa [readLoop] using hread
    exact hkey
  | cons line rest ih =>
    rw [readLoop] at hread
    by_cases hfold : (trimRight line).head?.any Str.isSpace
    · rw [if_pos hfold] at hread
      exact ih hread hkey
    · rw [if_neg hfold] at hread
      by_cases hpre : preLine ≠ []
      · rw [if_pos hpre] at hread
        split at hread
        · cases hread
        · exact ih hread (lookup_insert_of_some hkey _)
        · exact ih hread hkey
        · cases hread
      · rw [if_neg hpre] at hread
        by_cases hne : trimRight line ≠ []
        · rw [if_pos hne, Option.some.injEq, ok.injEq, Prod.mk.injEq] at hread
          rw [← hread.1]
          exact hkey
        · rw [if_neg hne] at hread
          exact ih hread hkey

theorem lookup_imfDecodeMultipart {read : Str → Option (Except ImfExn Imf)} {body : Str}
    (hread : imfDecodeMultipart read header body = some (.ok imf)) (hkey : header.lookup key = some v) :
    imf.header.lookup key = some v := by
  simp only [imfDecodeMultipart] at hread
  split at hread
  · obtain ⟨r, _, hr⟩ := Option.map_eq_some_iff.mp hread
    cases r with
    | error e => cases hr
    | ok mime =>
      obtain rfl := ok.inj hr
      exact lookup_insert_of_some hkey _
  · obtain rfl := ok.inj (Option.some.inj hread)
    exact lookup_insert_of_some hkey _

theorem lookup_finish (hread : finish processLine n (header, b) = some (.ok imf))
    (hkey : header.lookup key = some v) : imf.header.lookup key = some v := by
  cases b with
  | none =>
    obtain rfl := ok.inj (Option.some.inj hread)
    exact hkey
  | some body =>
    simp only [finish, decodeBody] at hread
    split at hread
    · exact lookup_imfDecodeMultipart hread (lookup_insert_of_some hkey _)
    · cases hread

end Kept

theorem lines_bodyText {ls : List Str} (hls : ∀ l ∈ ls, '\n' ∉ l) : Str.lines (bodyText ls) = ls.map (· ++ ['\r']) ++ [[]] := by
  have hlines := Str.lines_flatMap hls []
  rw [append_nil] at hlines
  exact hlines

theorem FoldedField.oneLine_block (f : FoldedField) : ∀ l ∈ blockLines f.block, OneLine l := by
  have hname : OneLine f.name := oneLine_of_no_space (isSpace_of_isName f.isName)
  intro l hl
  rcases mem_cons.mp hl with rfl | hl
  · exact oneLine_append hname (oneLine_append (s := ": ".toList) (by decide) (f.isValue f.chunk (by simp)).2.1)
  · obtain ⟨chunk, hmem, rfl⟩ := mem_map.mp hl
    exact oneLine_append (s := [' ']) (by decide) (f.isValue chunk (by simp [hmem])).2.1

section Mail

variable {n : Nat} {fields : List FoldedField} {body : List Str}

theorem lines_mailText (hbody : ∀ l ∈ body, OneLine l) :
    Str.lines (mailText fields body) = ((fields.map FoldedField.block).flatMap blockLines).map (· ++ ['\r']) ++
      ['\r'] :: (body.map (· ++ ['\r']) ++ [[]]) := by
  have hlines : ∀ l ∈ (fields.map FoldedField.block).flatMap blockLines ++ [] :: body, '\n' ∉ l := by
    intro l hl
    rcases mem_append.mp hl with hl | hl
    · obtain ⟨block, hblock, hmem⟩ := mem_flatMap.mp hl
      obtain ⟨f, _, rfl⟩ := mem_map.mp hblock
      exact (f.oneLine_block l hmem).2
    · rcases mem_cons.mp hl with rfl | hl
      · simp
      · exact (hbody l hl).2
  rw [mailText, lines_bodyText hlines]
  simp

def foldedLines : List FoldedField → List Str
  | [] => []
  | f :: fields => blockRead true f.block :: fields.map fun f => blockRead false f.block

theorem imfReadStream_mailText (hbody : ∀ l ∈ body, OneLine l) (hne : fields ≠ []) :
    imfReadStream (n + 1) (mailText fields body) =
      andThen (storeAll (processLine (n + 1)) [] (foldedLines fields)) fun header =>
        andThen (readLoop (processLine (n + 1)) header [] (body.map (· ++ ['\r']) ++ [[]])) (finish processLine n) := by
  obtain ⟨f, fields, rfl⟩ := exists_cons_of_ne_nil hne
  have hlines := @lines_mailText (f :: fields) body hbody
  have hblocks : ∀ block ∈ f.block :: fields.map FoldedField.block, IsBlock block := by
    rw [← map_cons]
    intro block hblock
    obtain ⟨g, _, rfl⟩ := mem_map.mp hblock
    exact g.isBlock
  rw [imfReadStream, imfReadStreamWith_blocks hblocks hlines, foldedLines, map_map]
  rfl

theorem FoldedField.processLine_key (f : FoldedField) {first : Bool} {entry : Str × Str}
    (hentry : entryOf n (blockRead first f.block) = some entry) : entry.1 = f.name := by
  obtain ⟨hcolon, hnul, hlower⟩ := f.isName.plain
  rw [entryOf_eq_some, f.blockRead_eq] at hentry
  rw [Imf.processLine_key hcolon hnul hentry, hlower]

theorem FoldedField.entryOf_eq (f : FoldedField) (first : Bool) (hmark : '?' ∉ f.value) (hzero : '\x00' ∉ f.value) :
    entryOf (n + 1) (blockRead first f.block) = some (f.name, f.valueRead first) := by
  obtain ⟨hcolon, hnul, hlower⟩ := f.isName.plain
  have hchunk := f.isValue f.chunk (by simp)
  obtain ⟨d, rest, hcons⟩ := exists_cons_of_ne_nil hchunk.1
  have hhead : ∀ c ∈ (f.valueRead first).head?, c ∉ " \t".toList := by
    intro c hc
    obtain rfl : d = c := by simpa [valueRead, hcons] using hc
    exact trimmed_not_blank hchunk.trimmed d (by simp [hcons])
  have hsub : ∀ c ∈ f.valueRead first, c ∈ f.value ∨ c = '\r' := by
    intro c hc
    cases first <;> simp [valueRead, value, mem_flatten, mem_flatMap] at hc ⊢ <;> grind
  have hread : '\x00' ∉ f.valueRead first := fun h => (hsub _ h).elim hzero (by decide)
  have hsearch : encodedRegex.search (f.valueRead first) = none := by
    by_contra hsome
    obtain ⟨what, hwhat⟩ := Option.ne_none_iff_exists'.mp hsome
    obtain ⟨pre, o, post, hsplit, _⟩ := search_encodedRegex hwhat
    have hin : '?' ∈ f.valueRead first := by
      rw [hsplit]
      simp
    exact (hsub _ hin).elim hmark (by decide)
  rw [entryOf_eq_some, f.blockRead_eq, processLine_eq hcolon hnul hhead, Str.cStr_eq_self_iff.mpr hread,
    imfBase64inlineDecode_of_none hread hsearch, hlower]
  rfl

theorem FoldedField.valueRead_eq_value_iff (f : FoldedField) (first : Bool) :
    f.valueRead first = f.value ↔ first = false ∧ f.chunks = [] := by
  constructor
  · intro heq
    have hfirst : first = false := by
      by_contra htrue
      have hin : '\r' ∈ f.value := by
        rw [← heq, valueRead, if_pos (by simpa using htrue)]
        simp
      rcases mem_append.mp hin with h | h
      · exact (f.isValue f.chunk (by simp)).2.1.1 h
      · obtain ⟨chunk, hmem, hc⟩ := mem_flatMap.mp h
        rcases mem_cons.mp hc with hc | hc
        · exact absurd hc (by decide)
        · exact (f.isValue chunk (by simp [hmem])).2.1.1 hc
    refine ⟨hfirst, ?_⟩
    -- each fold has lost a blank
    have hlength := congrArg length heq
    have hfolds : ∀ chunks : List Str, (chunks.flatMap (' ' :: ·)).length = chunks.flatten.length + chunks.length := by
      intro chunks
      induction chunks with
      | nil => rfl
      | cons chunk chunks ih =>
        simp only [flatMap_cons, flatten_cons, length_append, length_cons, ih]
        omega
    rw [valueRead, value, hfirst, length_append, length_append, length_append, hfolds] at hlength
    simp only [Bool.false_eq_true, if_false, length_nil] at hlength
    exact length_eq_zero_iff.mp (by omega)
  · rintro ⟨rfl, hchunks⟩
    simp [valueRead, value, hchunks]

theorem lookup_entries_append {before after : List Str} {line key v : Str}
    (hbefore : ∀ l ∈ before, ∀ entry, entryOf n l = some entry → entry.1 ≠ key)
    (hentry : entryOf n line = some (key, v)) :
    ((before ++ line :: after).filterMap (entryOf n)).lookup key = some v := by
  have hnone : (before.filterMap (entryOf n)).lookup key = none := by
    rw [lookup_eq_none_iff]
    intro entry hmem
    obtain ⟨l, hl, hl'⟩ := mem_filterMap.mp hmem
    simpa using (hbefore l hl entry hl').symm
  rw [filterMap_append, lookup_append, hnone, Option.none_or, filterMap_cons_some hentry, lookup_cons_self]

variable {before after : List FoldedField} {imf : Imf} {raw b pre : Str} {h : List (Str × Str)}

theorem lookup_foldedLines {f : FoldedField} (hbefore : ∀ g ∈ before, g.name ≠ f.name)
    (hmark : '?' ∉ f.value) (hzero : '\x00' ∉ f.value) :
    ((foldedLines (before ++ f :: after)).filterMap (entryOf (n + 1))).lookup f.name =
      some (f.valueRead before.isEmpty) := by
  cases before with
  | nil => exact @lookup_entries_append _ [] _ _ _ _ (by simp) (f.entryOf_eq true hmark hzero)
  | cons g before =>
    rw [cons_append, foldedLines, map_append, map_cons, ← cons_append]
    refine lookup_entries_append ?_ (f.entryOf_eq false hmark hzero)
    intro l hl entry hentry
    rcases mem_cons.mp hl with rfl | hl
    · rw [g.processLine_key hentry]
      exact hbefore g (by simp)
    · obtain ⟨g', hg', rfl⟩ := mem_map.mp hl
      rw [g'.processLine_key hentry]
      exact hbefore g' (by simp [hg'])

theorem lookup_imfReadStream (hbody : ∀ l ∈ body, OneLine l) {f : FoldedField}
    (hbefore : ∀ g ∈ before, g.name ≠ f.name) (hmark : '?' ∉ f.value) (hzero : '\x00' ∉ f.value)
    (hread : imfReadStream n (mailText (before ++ f :: after) body) = some (.ok imf)) :
    imf.header.lookup f.name = some (f.valueRead before.isEmpty) := by
  cases n with
  | zero => cases hread
  | succ n =>
    rw [imfReadStream_mailText hbody (by simp), andThen_eq_ok] at hread
    obtain ⟨header, hstore, hrest⟩ := hread
    obtain ⟨⟨h, b⟩, hloop, hfinish⟩ := andThen_eq_ok.mp hrest
    obtain ⟨_, rfl⟩ := storeAll_eq_ok.mp hstore
    apply lookup_finish hfinish
    apply lookup_readLoop hloop
    rw [lookup_foldl_insert, lookup_foldedLines hbefore hmark hzero]
    rfl

theorem lookup_foldedLines_none {key : Str} (hfields : ∀ f ∈ fields, f.name ≠ key) :
    ((foldedLines fields).filterMap (entryOf n)).lookup key = none := by
  rw [lookup_eq_none_iff]
  intro entry hmem
  obtain ⟨l, hl, hentry⟩ := mem_filterMap.mp hmem
  cases fields with
  | nil => simp [foldedLines] at hl
  | cons f fields =>
    rcases mem_cons.mp hl with rfl | hl
    · rw [f.processLine_key hentry]
      simpa using (hfields f (by simp)).symm
    · obtain ⟨g, hg, rfl⟩ := mem_map.mp hl
      rw [g.processLine_key hentry]
      simpa using (hfields g (by simp [hg])).symm

theorem length_finish {header : List (Str × Str)}
    (hfinish : finish processLine n (header, some raw) = some (.ok imf)) (hbody : imf.body = .inl b) : b.length ≤ raw.length := by
  obtain ⟨hdecoded, _⟩ := decodeBody_eq.mp ⟨hfinish, hbody⟩
  split at hdecoded
  · exact Str.length_base64Decode_le hdecoded
  · rw [ok.inj hdecoded]

theorem eq_of_finish {header : List (Str × Str)} (hnone : header.lookup "content-transfer-encoding".toList = none)
    (hfinish : finish processLine n (header, some raw) = some (.ok imf)) (hbody : imf.body = .inl b) : b = raw := by
  obtain ⟨hdecoded, _⟩ := decodeBody_eq.mp ⟨hfinish, hbody⟩
  rw [hnone, if_neg (by decide)] at hdecoded
  exact (ok.inj hdecoded).symm

theorem linesText_body (more : List Str) : linesText (more.map (· ++ ['\r']) ++ [[]]) = bodyText more ++ ['\n'] := by
  simp [linesText, bodyText, crlf, flatMap_map]

theorem not_stored_of_short {header : List (Str × Str)} {first : Str} {more : List Str} {b : Option Str}
    (hfirst : first ≠ [])
    (hread : readLoop (processLine (n + 1)) header pre (more.map (· ++ ['\r']) ++ [[]]) = some (.ok (h, b)))
    (hfinish : finish processLine n (h, b) = some (.ok imf)) : imf.body ≠ .inl (bodyText (first :: more)) := by
  have hpos := length_pos_iff.mpr hfirst
  have hlength : (bodyText (first :: more)).length = first.length + 2 + (bodyText more).length := by
    simp only [bodyText, flatMap_cons, length_append]
    rfl
  intro hbody
  cases b with
  | none =>
    obtain rfl := ok.inj (Option.some.inj hfinish)
    have hnil := congrArg length (Sum.inl.inj hbody)
    rw [hlength, length_nil] at hnil
    omega
  | some raw =>
    have hraw := length_readLoop hread
    have hle := length_finish hfinish hbody
    rw [linesText_body, length_append, length_singleton] at hraw
    omega

theorem body_ne (first : Str) (more : List Str) (line : Str) : bodyText (line :: more) ++ ['\n'] ≠ bodyText (first :: more) := by
  obtain ⟨d, hd⟩ := flatMap_crlf (cons_ne_nil line more)
  obtain ⟨e, he⟩ := flatMap_crlf (cons_ne_nil first more)
  rw [bodyText, hd, bodyText, he]
  intro heq
  have hreverse := congrArg reverse heq
  simp [crlf] at hreverse

section Body

variable {first : Str} {more : List Str} {imf : Imf}

theorem body_not_stored_of_nil (hbody : ∀ l ∈ first :: more, OneLine l) (hfirst : first ≠ [])
    (hread : imfReadStream (n + 1) (mailText [] (first :: more)) = some (.ok imf)) :
    imf.body ≠ .inl (bodyText (first :: more)) := by
  have hlines := @lines_mailText [] _ hbody
  rw [imfReadStream, imfReadStreamWith_eq hlines, andThen_eq_ok] at hread
  obtain ⟨⟨h, b⟩, hloop, hfinish⟩ := hread
  rw [map_cons, cons_append, readLoop] at hloop
  split at hloop
  · exact not_stored_of_short hfirst hloop hfinish
  · rw [if_pos (by simp)] at hloop
    split at hloop
    · cases hloop
    · exact not_stored_of_short hfirst hloop hfinish
    · exact not_stored_of_short hfirst hloop hfinish
    · cases hloop

theorem body_not_stored_of_finish (hcte : ∀ f ∈ fields, f.name ≠ "content-transfer-encoding".toList)
    (hfinish : finish processLine n (((foldedLines fields).filterMap (entryOf (n + 1))).foldl insert [],
      some (trimRight (first ++ ['\r']) ++ crlf ++ (more.map (· ++ ['\r']) ++ [[]]).flatMap (· ++ ['\n']))) =
        some (.ok imf)) : imf.body ≠ .inl (bodyText (first :: more)) := by
  have hnone : (((foldedLines fields).filterMap (entryOf (n + 1))).foldl insert []).lookup
      "content-transfer-encoding".toList = none := by
    rw [lookup_foldl_insert, lookup_foldedLines_none hcte]
    rfl
  intro hstored
  have hraw := eq_of_finish hnone hfinish hstored
  have hrest : (more.map (· ++ ['\r']) ++ [[]]).flatMap (· ++ ['\n']) = bodyText more ++ ['\n'] := linesText_body more
  rw [hrest, Str.trimRight_crlf] at hraw
  refine body_ne first more (trimRight first) ?_
  rw [hraw]
  simp [bodyText]

theorem body_never_stored (hcte : ∀ f ∈ fields, f.name ≠ "content-transfer-encoding".toList)
    (hbody : ∀ l ∈ first :: more, OneLine l) (hfirst : first ≠ [])
    (hread : imfReadStream n (mailText fields (first :: more)) = some (.ok imf)) :
    imf.body ≠ .inl (bodyText (first :: more)) := by
  cases n with
  | zero => cases hread
  | succ n =>
    by_cases hne : fields = []
    · subst hne
      exact body_not_stored_of_nil hbody hfirst hread
    · rw [imfReadStream_mailText hbody hne, andThen_eq_ok] at hread
      obtain ⟨header, hstore, hrest⟩ := hread
      obtain ⟨⟨h, b⟩, hloop, hfinish⟩ := andThen_eq_ok.mp hrest
      obtain ⟨_, rfl⟩ := storeAll_eq_ok.mp hstore
      rw [map_cons, cons_append, readLoop] at hloop
      split at hloop
      · exact not_stored_of_short hfirst hloop hfinish
      · rw [if_neg (by simp)] at hloop
        split at hloop
        · obtain ⟨rfl, rfl⟩ := Prod.mk.inj (ok.inj (Option.some.inj hloop))
          exact body_not_stored_of_finish hcte hfinish
        · exact not_stored_of_short hfirst hloop hfinish

end Body

end Mail

/-- No mail is stored as it was sent. Of the values without question marks and NULs those are that come in one line, except the first of all. -/
theorem folded_mail_not_stored {fields : List FoldedField}
    (hnodup : (fields.map FoldedField.name).Nodup) (hcte : ∀ f ∈ fields, f.name ≠ "content-transfer-encoding".toList)
    {first : Str} {more : List Str} (hbody : ∀ l ∈ first :: more, OneLine l) (hfirst : first ≠ []) :
    ¬ Stores fields (first :: more) ∧
      ∀ before f after, fields = before ++ f :: after → '?' ∉ f.value → '\x00' ∉ f.value → ∀ n imf,
        imfReadStream n (mailText fields (first :: more)) = some (.ok imf) →
          (imf.header.lookup f.name = some f.value ↔ before ≠ [] ∧ f.chunks = []) := by
  constructor
  · rintro ⟨n, imf, hread, _, hstored⟩
    exact body_never_stored hcte hbody hfirst hread hstored
  · rintro before f after rfl hmark hzero n imf hread
    have hbefore : ∀ g ∈ before, g.name ≠ f.name := by
      intro g hg heq
      rw [map_append, map_cons, nodup_append] at hnodup
      exact hnodup.2.2 g.name (mem_map_of_mem hg) f.name (by simp) heq
    rw [lookup_imfReadStream hbody hbefore hmark hzero hread, Option.some.injEq, f.valueRead_eq_value_iff]
    simp

def sampleFields : List FoldedField :=
  [⟨"from".toList, "x".toList, [], by decide, by decide⟩, ⟨"subject".toList, "a".toList, ["b".toList], by decide, by decide⟩]

theorem folded_mail_not_stored_sample : ¬ Stores sampleFields ["hi".toList] :=
  (folded_mail_not_stored (by decide) (by decide) (by decide) (by decide)).1

/-- The first field keeps a carriage return, the fold is lost, and the body ends in another line feed. -/
theorem sample_mail_stored :
    mailText sampleFields ["hi".toList] = "from: x\r\nsubject: a\r\n b\r\n\r\nhi\r\n".toList ∧
      imfReadStream 1 (mailText sampleFields ["hi".toList]) =
        some (.ok ⟨[("from".toList, "x\r".toList), ("subject".toList, "ab".toList),
          ("content-transfer-encoding".toList, []), ("content-type".toList, [])], false, .inl "hi\r\n\n".toList⟩) :=
  ⟨rfl, rfl⟩

end Imf

end Avbot
