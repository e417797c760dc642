import Avbot.Mail.Mime

/-!
# `select_best_mailcontent`

The conversion of character sets is the parameter `conv`. A multipart mail is a tree. The function for a list of parts returns, at the first part that is a multipart itself, what it finds in there. The parts whose leaves decide are those of the last list it goes into, `MailTree.reached`.
-/

namespace Avbot

open List Option Pattern Except

namespace Imf

def findMimetype (contenttype : Str) : Str :=
  if contenttype ≠ [] then
    match contenttype.splitOnP (· ∈ "; ".toList) with
    | [] => contenttype
    | splited :: _ => if splited = [] then contenttype else splited
  else "text/plain".toList

/-- The expression `(.*)?;[\t \r\a]?charset=(.*)?`. -/
def charsetRegex : Regex Char :=
  ⟨[.many (fun _ => true), .one (· == ';'), .opt (· ∈ ['\t', ' ', '\r', '\x07'])] ++ lit "charset=".toList ++
    [.many (fun _ => true)], [(0, 1), (11, 1)]⟩

def contentType (header : List (Str × Str)) : Str := (subscript header "content-type".toList).1

section Select

variable (conv : Str → Str → Except ImfExn Str)

def ansiUtf8 (source characters : Str) : Except ImfExn Str := (conv source characters).map Str.cStr

def decodeContentCharset (body contentType : Str) : Except ImfExn Str :=
  match charsetRegex.search (Str.cStr contentType) with
  | some what => ansiUtf8 conv body (what.getD 2 [])
  | none => .ok body

def getText (v : Imf) : Except ImfExn Str :=
  match v.body with
  | .inl body => .ok body
  | .inr _ => .error .badGet

mutual

def selectBestMailcontent : Imf → Except ImfExn (Str × Str)
  | ⟨_, true, .inr mime⟩ =>
    match plainLoop mime with
    | some result => result
    | none => (htmlLoop mime).getD (.ok ([], []))
  | ⟨_, true, .inl _⟩ => .error .badGet
  | ⟨header, false, .inl body⟩ =>
    (decodeContentCharset conv body (contentType header)).map fun content => (findMimetype (contentType header), content)
  | ⟨_, false, .inr _⟩ => .error .badGet

def plainLoop : List Imf → Option (Except ImfExn (Str × Str))
  | [] => none
  | v :: mime =>
    if v.haveMultipart then some (selectBestMailcontent v)
    else if findMimetype (contentType v.header) = "text/plain".toList then
      some ((getText v).map fun body => (contentType v.header, body))
    else plainLoop mime

def htmlLoop : List Imf → Option (Except ImfExn (Str × Str))
  | [] => none
  | v :: mime =>
    if v.haveMultipart then some (selectBestMailcontent v)
    else if findMimetype (contentType v.header) = "text/html".toList then
      some ((getText v).map fun body => (contentType v.header, body))
    else htmlLoop mime

end

end Select

end Imf

/-- A mail whose body is what `have_multipart` says. -/
inductive MailTree where
  | leaf (header : List (Str × Str)) (body : Str)
  | multipart (header : List (Str × Str)) (parts : List MailTree)

namespace MailTree

open Imf

mutual

def toImf : MailTree → Imf
  | leaf header body => ⟨header, false, .inl body⟩
  | multipart header parts => ⟨header, true, .inr (toMime parts)⟩

def toMime : List MailTree → List Imf
  | [] => []
  | t :: parts => toImf t :: toMime parts

end

mutual

def leaves : MailTree → List (Str × Str)
  | leaf header body => [(contentType header, body)]
  | multipart _ parts => leavesAll parts

def leavesAll : List MailTree → List (Str × Str)
  | [] => []
  | t :: parts => leaves t ++ leavesAll parts

end

def IsPlain (content : Str × Str) : Prop := findMimetype content.1 = "text/plain".toList

def IsHtml (content : Str × Str) : Prop := findMimetype content.1 = "text/html".toList

instance (content : Str × Str) : Decidable (IsPlain content) := inferInstanceAs (Decidable (_ = _))

instance (content : Str × Str) : Decidable (IsHtml content) := inferInstanceAs (Decidable (_ = _))

def Best (leaves : List (Str × Str)) (result : Str × Str) : Prop :=
  if ∃ content ∈ leaves, IsPlain content then result ∈ leaves ∧ IsPlain result
  else if ∃ content ∈ leaves, IsHtml content then result ∈ leaves ∧ IsHtml result
  else result = ([], [])

instance (leaves : List (Str × Str)) (result : Str × Str) : Decidable (Best leaves result) :=
  inferInstanceAs (Decidable (ite _ _ _))

mutual

/-- The list of parts in which the search ends: it goes into the first multipart that no `text/plain` leaf of the same list comes before. -/
def reached : MailTree → List MailTree
  | leaf _ _ => []
  | multipart _ parts => reachedFrom parts parts

def reachedFrom (all : List MailTree) : List MailTree → List MailTree
  | [] => all
  | t :: parts =>
    match t with
    | leaf header body => if IsPlain (contentType header, body) then all else reachedFrom all parts
    | multipart _ _ => reached t

end

def ownLeaves : List MailTree → List (Str × Str)
  | [] => []
  | leaf header body :: parts => (contentType header, body) :: ownLeaves parts
  | multipart _ _ :: parts => ownLeaves parts

def choose (own : List (Str × Str)) : Str × Str :=
  match own.find? (IsPlain ·) with
  | some content => content
  | none => (own.find? (IsHtml ·)).getD ([], [])

variable {conv : Str → Str → Except ImfExn Str}

section Loops

variable (header : List (Str × Str)) (body : Str) (inner parts : List MailTree)

theorem plainLoop_leaf : plainLoop conv (toMime (leaf header body :: parts)) =
    if IsPlain (contentType header, body) then some (.ok (contentType header, body)) else plainLoop conv (toMime parts) := by
  rw [toMime, toImf, plainLoop]
  rfl

theorem plainLoop_multipart : plainLoop conv (toMime (multipart header inner :: parts)) =
    some (selectBestMailcontent conv (multipart header inner).toImf) := by
  rw [toMime, toImf, plainLoop]
  rfl

theorem htmlLoop_leaf : htmlLoop conv (toMime (leaf header body :: parts)) =
    if IsHtml (contentType header, body) then some (.ok (contentType header, body)) else htmlLoop conv (toMime parts) := by
  rw [toMime, toImf, htmlLoop]
  rfl

end Loops

/-- A leaf that is not `text/plain`. -/
def Passed (t : MailTree) : Prop :=
  match t with
  | leaf header body => ¬ IsPlain (contentType header, body)
  | multipart _ _ => False

theorem ownLeaves_append (l m : List MailTree) : ownLeaves (l ++ m) = ownLeaves l ++ ownLeaves m := by
  induction l with
  | nil => rfl
  | cons t l ih => cases t <;> simp [ownLeaves, ih]

theorem find?_plain_of_passed {l : List MailTree} (hl : ∀ t ∈ l, Passed t) : (ownLeaves l).find? (IsPlain ·) = none := by
  induction l with
  | nil => rfl
  | cons t l ih =>
    have ht := hl t (by simp)
    have hrest := ih fun u hu => hl u (by simp [hu])
    cases t with
    | leaf header body => simpa [ownLeaves, Passed] using ⟨ht, by simpa using hrest⟩
    | multipart header parts => exact ht.elim

theorem htmlLoop_of_passed {l : List MailTree} (hl : ∀ t ∈ l, Passed t) :
    htmlLoop conv (toMime l) = ((ownLeaves l).find? (IsHtml ·)).map .ok := by
  induction l with
  | nil => rfl
  | cons t l ih =>
    have hrest := ih fun u hu => hl u (by simp [hu])
    cases t with
    | leaf header body =>
      rw [htmlLoop_leaf, hrest, ownLeaves]
      by_cases hhtml : IsHtml (contentType header, body)
      · rw [if_pos hhtml, find?_cons_of_pos (by simpa using hhtml)]
        rfl
      · rw [if_neg hhtml, find?_cons_of_neg (by simpa using hhtml)]
    | multipart header parts =>
      have ht := hl (multipart header parts) (by simp)
      exact ht.elim

mutual

theorem selectBestMailcontent_eq : ∀ (header : List (Str × Str)) (parts : List MailTree),
    selectBestMailcontent conv (multipart header parts).toImf = .ok (choose (ownLeaves (multipart header parts).reached))
  | header, parts => by
    have hloop := plainLoop_eq [] parts (by simp)
    rw [nil_append] at hloop
    rw [toImf, selectBestMailcontent, hloop, reached]

theorem plainLoop_eq : ∀ (before parts : List MailTree), (∀ t ∈ before, Passed t) →
    (match plainLoop conv (toMime parts) with
      | some result => result
      | none => (htmlLoop conv (toMime (before ++ parts))).getD (.ok ([], []))) =
      .ok (choose (ownLeaves (reachedFrom (before ++ parts) parts)))
  | before, [], hbefore => by
    rw [toMime, plainLoop, append_nil, htmlLoop_of_passed hbefore, reachedFrom, choose, find?_plain_of_passed hbefore]
    cases (ownLeaves before).find? (IsHtml ·) <;> rfl
  | before, leaf header body :: parts, hbefore => by
    rw [plainLoop_leaf, reachedFrom]
    by_cases hplain : IsPlain (contentType header, body)
    · rw [if_pos hplain, if_pos hplain, choose, ownLeaves_append, find?_append, find?_plain_of_passed hbefore, ownLeaves,
        find?_cons_of_pos (by simpa using hplain)]
      rfl
    · rw [if_neg hplain, if_neg hplain]
      have hloop := plainLoop_eq (before ++ [leaf header body]) parts ?_
      · rw [append_assoc, singleton_append] at hloop
        exact hloop
      · intro t ht
        rcases mem_append.mp ht with ht | ht
        · exact hbefore t ht
        · rw [mem_singleton.mp ht]
          exact hplain
  | before, multipart header inner :: parts, _ => by
    rw [plainLoop_multipart, reachedFrom]
    exact selectBestMailcontent_eq header inner

end

variable {read : Str → Option (Except ImfExn Imf)} {imf : Imf}

theorem toMime_append (ts us : List MailTree) : toMime (ts ++ us) = toMime ts ++ toMime us := by
  induction ts with
  | nil => rfl
  | cons t ts ih => rw [cons_append, toMime, toMime, ih, cons_append]

section

variable (hread : ∀ text imf, read text = some (.ok imf) → ∃ t : MailTree, imf = t.toImf)

include hread

theorem exists_tree_of_partLoop {boundary part : Str} {ts : List MailTree} {lines : List Str} {mime : List Imf}
    (hloop : partLoop read boundary (toMime ts) part lines = some (.ok mime)) : ∃ ts : List MailTree, mime = toMime ts := by
  induction lines generalizing ts part with
  | nil =>
    obtain rfl := ok.inj (some.inj hloop)
    exact ⟨ts, rfl⟩
  | cons line rest ih =>
    by_cases hline : IsDelimiter boundary line
    · rw [partLoop_delimiter hline, andThen_eq_ok] at hloop
      obtain ⟨imf, himf, hrest⟩ := hloop
      obtain ⟨t, rfl⟩ := hread part imf himf
      have happend : toMime ts ++ [t.toImf] = toMime (ts ++ [t]) := (toMime_append ts [t]).symm
      rw [happend] at hrest
      exact ih hrest
    · rw [partLoop_other hline] at hloop
      exact ih hloop

theorem exists_tree_of_mimeLoop {boundary : Str}
    {lines : List Str} {mime : List Imf} (hloop : mimeLoop read boundary [] lines = some (.ok mime)) :
    ∃ ts : List MailTree, mime = toMime ts := by
  induction lines with
  | nil =>
    obtain rfl := ok.inj (some.inj hloop)
    exact ⟨[], rfl⟩
  | cons line rest ih =>
    rw [mimeLoop] at hloop
    split at hloop
    · exact @exists_tree_of_partLoop _ hread _ _ [] _ _ hloop
    · exact ih hloop

theorem exists_tree_of_decodeBody {header : List (Str × Str)} {body : Str}
    (hbody : decodeBody read header body = some (.ok imf)) : ∃ t : MailTree, imf = t.toImf := by
  simp only [decodeBody] at hbody
  split at hbody
  · simp only [imfDecodeMultipart] at hbody
    split at hbody
    · obtain ⟨r, hr, hmap⟩ := map_eq_some_iff.mp hbody
      cases r with
      | error e => cases hmap
      | ok mime =>
        obtain ⟨ts, rfl⟩ := exists_tree_of_mimeLoop hread hr
        obtain rfl := ok.inj hmap
        exact ⟨multipart _ ts, rfl⟩
    · obtain rfl := ok.inj (some.inj hbody)
      exact ⟨leaf _ _, rfl⟩
  · cases hbody

end

theorem exists_tree_of_imfReadStream {n : Nat} {text : Str}
    (hread : imfReadStream n text = some (.ok imf)) : ∃ t : MailTree, imf = t.toImf := by
  induction n generalizing text imf with
  | zero => cases hread
  | succ n ih =>
    obtain ⟨preLine, lines, hlines⟩ := exists_cons_of_ne_nil (Str.lines_ne_nil text)
    rw [imfReadStream, imfReadStreamWith_eq hlines, andThen_eq_ok] at hread
    obtain ⟨⟨header, _ | body⟩, _, hfinish⟩ := hread
    · obtain rfl := ok.inj (some.inj hfinish)
      exact ⟨leaf header [], rfl⟩
    · exact exists_tree_of_decodeBody (fun text imf => ih) hfinish

theorem map_ne_error {α β ε : Type} {x : Except ε α} {e : ε} (hx : x ≠ .error e) (f : α → β) : x.map f ≠ .error e := by
  cases x with
  | ok a => simp [Except.map]
  | error e' => simpa [Except.map] using hx

/-- The mail that has been read can be looked through: on every level its body is what the flag says. -/
theorem selectBestMailcontent_ne_badGet (conv : Str → Str → Except ImfExn Str)
    (hconv : ∀ source characters, conv source characters ≠ .error .badGet) {n : Nat} {text : Str} {imf : Imf}
    (hread : imfReadStream n text = some (.ok imf)) :
    (∃ t : MailTree, imf = t.toImf) ∧ selectBestMailcontent conv imf ≠ .error .badGet := by
  obtain ⟨t, rfl⟩ := exists_tree_of_imfReadStream hread
  refine ⟨⟨t, rfl⟩, ?_⟩
  cases t with
  | multipart header parts => simp [selectBestMailcontent_eq]
  | leaf header body =>
    rw [toImf, selectBestMailcontent]
    apply map_ne_error
    rw [decodeContentCharset]
    split
    · exact map_ne_error (hconv _ _) _
    · simp

def nestedText : Str :=
  ("content-type: multipart/;boundary=\"a\"\n\nx\n--a\n" ++
    "content-type: multipart/;boundary=\"b\"\n\nx\n--b\nto: y\n\nz\n--b--\n--a\n--a--\n").toList

def nestedTree : MailTree :=
  let header := fun boundary : String =>
    [("content-type".toList, ("multipart/;boundary=\"" ++ boundary ++ "\"").toList), ("content-transfer-encoding".toList, [])]
  multipart (header "a")
    [multipart (header "b")
      [leaf [("to".toList, "y".toList), ("content-transfer-encoding".toList, []), ("content-type".toList, [])] "z\r\n\n".toList],
    leaf [] []]

set_option maxRecDepth 20000 in
theorem selectBestMailcontent_ne_badGet_nested : imfReadStream 4 nestedText = some (.ok nestedTree.toImf) ∧
    (∃ t : MailTree, nestedTree.toImf = t.toImf) ∧
      selectBestMailcontent (fun source _ => .ok source) nestedTree.toImf ≠ .error .badGet := by
  have hread : imfReadStream 4 nestedText = some (.ok nestedTree.toImf) := rfl
  exact ⟨hread, selectBestMailcontent_ne_badGet _ (by simp) hread⟩

theorem mem_leavesAll_of_mem_ownLeaves {l : List MailTree} {content : Str × Str} (hcontent : content ∈ ownLeaves l) :
    content ∈ leavesAll l := by
  induction l with
  | nil => simp [ownLeaves] at hcontent
  | cons t l ih =>
    rw [leavesAll, mem_append]
    cases t with
    | leaf header body =>
      rcases mem_cons.mp hcontent with rfl | hcontent
      · exact .inl (by simp [leaves])
      · exact .inr (ih hcontent)
    | multipart header parts => exact .inr (ih hcontent)

mutual

theorem mem_leaves_of_mem_reached : ∀ (t : MailTree) {content : Str × Str},
    content ∈ leavesAll t.reached → content ∈ t.leaves
  | leaf _ _, _, hcontent => by simp [reached, leavesAll] at hcontent
  | multipart header parts, content, hcontent => by
    rw [reached] at hcontent
    rw [leaves]
    exact (mem_leaves_of_mem_reachedFrom parts parts hcontent).elim id id

theorem mem_leaves_of_mem_reachedFrom : ∀ (all parts : List MailTree) {content : Str × Str},
    content ∈ leavesAll (reachedFrom all parts) → content ∈ leavesAll all ∨ content ∈ leavesAll parts
  | all, [], content, hcontent => by
    rw [reachedFrom] at hcontent
    exact .inl hcontent
  | all, leaf header body :: parts, content, hcontent => by
    rw [reachedFrom] at hcontent
    rw [leavesAll, mem_append]
    split at hcontent
    · exact .inl hcontent
    · exact (mem_leaves_of_mem_reachedFrom all parts hcontent).imp_right .inr
  | all, multipart header inner :: parts, content, hcontent => by
    rw [reachedFrom] at hcontent
    rw [leavesAll, mem_append]
    exact .inr (.inl (mem_leaves_of_mem_reached (multipart header inner) hcontent))

end

theorem not_isHtml_of_isPlain {content : Str × Str} (hplain : IsPlain content) : ¬ IsHtml content := by
  intro hhtml
  exact absurd (hplain.symm.trans hhtml) (by decide)

section Choose

variable {own tree : List (Str × Str)}

/-- The list has a `text/plain` leaf, or nothing better is anywhere in the mail, or else the pair of empty texts happens to be one of the leaves. -/
def Suffices (own tree : List (Str × Str)) : Prop :=
  (∃ content ∈ own, IsPlain content) ∨
    ((¬ ∃ content ∈ tree, IsPlain content) ∧ ((∃ content ∈ own, IsHtml content) ∨ ¬ ∃ content ∈ tree, IsHtml content)) ∨
    ((¬ ∃ content ∈ own, IsHtml content) ∧ ([], []) ∈ tree)

theorem choose_of_plain (hplain : ∃ content ∈ own, IsPlain content) : choose own ∈ own ∧ IsPlain (choose own) := by
  obtain ⟨c, hc, hcplain⟩ := hplain
  cases hfind : own.find? (IsPlain ·) with
  | none => exact absurd hcplain (by simpa using find?_eq_none.mp hfind c hc)
  | some content =>
    rw [choose, hfind]
    exact ⟨mem_of_find?_eq_some hfind, by simpa using find?_some hfind⟩

theorem choose_of_html (hplain : ¬ ∃ content ∈ own, IsPlain content) (hhtml : ∃ content ∈ own, IsHtml content) :
    choose own ∈ own ∧ IsHtml (choose own) := by
  have hnone : own.find? (IsPlain ·) = none := find?_eq_none.mpr fun c hc => by simpa using fun h => hplain ⟨c, hc, h⟩
  obtain ⟨c, hc, hchtml⟩ := hhtml
  cases hfind : own.find? (IsHtml ·) with
  | none => exact absurd hchtml (by simpa using find?_eq_none.mp hfind c hc)
  | some content =>
    rw [choose, hnone, hfind]
    exact ⟨mem_of_find?_eq_some hfind, by simpa using find?_some hfind⟩

theorem choose_of_neither (hplain : ¬ ∃ content ∈ own, IsPlain content) (hhtml : ¬ ∃ content ∈ own, IsHtml content) :
    choose own = ([], []) := by
  have hnone : own.find? (IsPlain ·) = none := find?_eq_none.mpr fun c hc => by simpa using fun h => hplain ⟨c, hc, h⟩
  have hnone' : own.find? (IsHtml ·) = none := find?_eq_none.mpr fun c hc => by simpa using fun h => hhtml ⟨c, hc, h⟩
  rw [choose, hnone, hnone']
  rfl

theorem isPlain_empty : IsPlain ([], []) := by decide

theorem best_choose_iff (hsub : ∀ content ∈ own, content ∈ tree) : Best tree (choose own) ↔ Suffices own tree := by
  by_cases hown : ∃ content ∈ own, IsPlain content
  · obtain ⟨hmem, hplain⟩ := choose_of_plain hown
    have htree : ∃ content ∈ tree, IsPlain content := ⟨_, hsub _ hmem, hplain⟩
    rw [Best, if_pos htree]
    exact ⟨fun _ => .inl hown, fun _ => ⟨hsub _ hmem, hplain⟩⟩
  · by_cases hhtml : ∃ content ∈ own, IsHtml content
    · obtain ⟨hmem, hchosen⟩ := choose_of_html hown hhtml
      have htree : ∃ content ∈ tree, IsHtml content := ⟨_, hsub _ hmem, hchosen⟩
      by_cases hplain : ∃ content ∈ tree, IsPlain content
      · rw [Best, if_pos hplain]
        constructor
        · intro h
          exact absurd hchosen (not_isHtml_of_isPlain h.2)
        · rintro (h | h | h)
          · exact absurd h hown
          · exact absurd hplain h.1
          · exact absurd hhtml h.1
      · rw [Best, if_neg hplain, if_pos htree]
        exact ⟨fun _ => .inr (.inl ⟨hplain, .inl hhtml⟩), fun _ => ⟨hsub _ hmem, hchosen⟩⟩
    · rw [choose_of_neither hown hhtml]
      by_cases hplain : ∃ content ∈ tree, IsPlain content
      · rw [Best, if_pos hplain]
        constructor
        · intro h
          exact .inr (.inr ⟨hhtml, h.1⟩)
        · rintro (h | h | h)
          · exact absurd h hown
          · exact absurd hplain h.1
          · exact ⟨h.2, isPlain_empty⟩
      · have hempty : ([], []) ∉ tree := fun h => hplain ⟨_, h, isPlain_empty⟩
        by_cases htree : ∃ content ∈ tree, IsHtml content
        · rw [Best, if_neg hplain, if_pos htree]
          constructor
          · intro h
            exact absurd h.1 hempty
          · rintro (h | h | h)
            · exact absurd h hown
            · exact (h.2.elim hhtml fun h => h htree).elim
            · exact absurd h.2 hempty
        · rw [Best, if_neg hplain, if_neg htree]
          exact ⟨fun _ => .inr (.inl ⟨hplain, .inr htree⟩), fun _ => rfl⟩

end Choose

/-- The best content of a mail is returned exactly if the list in which the search ends suffices. -/
theorem selectBestMailcontent_best_iff (conv : Str → Str → Except ImfExn Str) (header : List (Str × Str)) (parts : List MailTree) :
    (∃ result, selectBestMailcontent conv (multipart header parts).toImf = .ok result ∧
        Best (multipart header parts).leaves result) ↔
      Suffices (ownLeaves (multipart header parts).reached) (multipart header parts).leaves := by
  have hsub : ∀ content ∈ ownLeaves (multipart header parts).reached, content ∈ (multipart header parts).leaves :=
    fun content hcontent => mem_leaves_of_mem_reached _ (mem_leavesAll_of_mem_ownLeaves hcontent)
  rw [← best_choose_iff hsub, selectBestMailcontent_eq]
  constructor
  · rintro ⟨result, hresult, hbest⟩
    rw [ok.inj hresult]
    exact hbest
  · intro hbest
    exact ⟨_, rfl, hbest⟩

def pictureFirst : MailTree :=
  multipart [] [multipart [] [leaf [("content-type".toList, "image/png".toList)] "x".toList],
    leaf [("content-type".toList, "text/plain".toList)] "hi".toList]

theorem pictureFirst_not_best :
    selectBestMailcontent (fun s _ => .ok s) pictureFirst.toImf = .ok ([], []) ∧
      ("text/plain".toList, "hi".toList) ∈ pictureFirst.leaves ∧ ¬ Best pictureFirst.leaves ([], []) :=
  ⟨rfl, by decide, by decide⟩

end MailTree

end Avbot
