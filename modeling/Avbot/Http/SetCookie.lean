import Avbot.Http.Cookie
import Avbot.Http.ResponseHead
import Mathlib.Data.Char
import Mathlib.Data.List.Lex

/-!
# Reading the cookies of a header

A `Set-Cookie` header of the kind servers send: names with values, and the attributes path, domain, secure and httponly, in any order. The map of `parse_cookie_string` has the names in order, so the cookies come out in the order of their names, all with the same attributes.
-/

namespace Avbot.Http

open List Scanner

/-! ### The header -/

inductive CookieItem where
  | assigned (name value : Str)
  | flag (name : Str)
  deriving DecidableEq

def CookieItem.text : CookieItem → Str
  | assigned name value => name ++ '=' :: value
  | flag name => name

def isNameChar (c : Char) : Bool := c.isAlphanum || c = '-' || c = '_'

def isValueChar (c : Char) : Bool := isChar c && c ≠ ';' && c ≠ '"' && c ≠ '\''

structure IsName (s : Str) : Prop where
  ne_nil : s ≠ []
  isNameChar : ∀ c ∈ s, isNameChar c = true

structure IsValue (s : Str) : Prop where
  ne_nil : s ≠ []
  isValueChar : ∀ c ∈ s, isValueChar c = true

/-- What a header says: the cookies, and the attributes that are given, with their names in any case. -/
structure SetCookie where
  pairs : List (Str × Str)
  path : Option (Str × Str)
  domain : Option (Str × Str)
  secure : Option Str
  httponly : Option Str
  pairs_ne_nil : pairs ≠ []
  nodup : (pairs.map Prod.fst).Nodup
  isName : ∀ o ∈ pairs, IsName o.1
  isValue : ∀ o ∈ pairs, IsValue o.2
  noAttribute : ∀ o ∈ pairs, Str.toLower o.1 ∉
    ["expires".toList, "domain".toList, "path".toList, "secure".toList, "httponly".toList]
  path_spec : ∀ o ∈ path, Str.toLower o.1 = "path".toList ∧ IsValue o.2
  domain_spec : ∀ o ∈ domain, Str.toLower o.1 = "domain".toList ∧ IsValue o.2
  secure_spec : ∀ name ∈ secure, Str.toLower name = "secure".toList
  httponly_spec : ∀ name ∈ httponly, Str.toLower name = "httponly".toList

namespace SetCookie

variable (h : SetCookie)

def assigned : List (Str × Str) := h.pairs ++ h.path.toList ++ h.domain.toList

def flags : List Str := h.secure.toList ++ h.httponly.toList

def items : List CookieItem := h.assigned.map (fun o => .assigned o.1 o.2) ++ h.flags.map .flag

def cookie (o : Str × Str) : Cookie where
  name := o.1
  value := o.2
  domain := (h.domain.map Prod.snd).getD []
  path := (h.path.map Prod.snd).getD []
  expires := none
  httponly := h.httponly.isSome
  secure := h.secure.isSome

end SetCookie

def cookieHeader (items : List CookieItem) (semicolon : Bool) : Str :=
  List.intercalate "; ".toList (items.map CookieItem.text) ++ if semicolon then [';'] else []

/-! ### The map -/

def nameLt (a b : Str) : Bool := List.lex a b fun a b => a.toNat < b.toNat

variable {a b : Str} {c : Char}

theorem nameLt_iff : nameLt a b = true ↔ a < b := by
  have hchar : (fun a b : Char => decide (a.toNat < b.toNat)) = fun a b => decide (a < b) := rfl
  rw [nameLt, hchar]
  exact lex_eq_true_iff_lt

theorem nameLt_trans {c : Str} (hab : nameLt a b = true) (hbc : nameLt b c = true) : nameLt a c = true :=
  nameLt_iff.mpr ((nameLt_iff.mp hab).trans (nameLt_iff.mp hbc))

theorem nameLt_of_not (hne : a ≠ b) (hnot : ¬ nameLt a b = true) : nameLt b a = true := by
  rw [nameLt_iff] at hnot ⊢
  exact lt_of_le_of_ne (not_lt.mp hnot) (Ne.symm hne)

def Sorted (tmp : List (Str × Str)) : Prop := tmp.Pairwise fun a b => nameLt a.1 b.1 = true

theorem assign_new {key : Str} {tmp : List (Str × Str)} (hsorted : Sorted tmp) (hnew : key ∉ tmp.map Prod.fst) (val : Str) :
    (assign key val tmp).Perm ((key, val) :: tmp) ∧ Sorted (assign key val tmp) := by
  induction tmp with
  | nil => exact ⟨.refl _, pairwise_singleton _ _⟩
  | cons o tmp ih =>
    obtain ⟨hne, hnew⟩ := not_or.mp (mt mem_cons.mpr hnew)
    obtain ⟨hfirst, hrest⟩ := pairwise_cons.mp hsorted
    rw [assign, if_neg hne]
    change List.Perm (if nameLt key o.1 = true then _ else _) _ ∧ Sorted (if nameLt key o.1 = true then _ else _)
    by_cases hlt : nameLt key o.1 = true
    · rw [if_pos hlt]
      refine ⟨.refl _, pairwise_cons.mpr ⟨?_, hsorted⟩⟩
      intro o' ho'
      rcases mem_cons.mp ho' with rfl | ho'
      · exact hlt
      · exact nameLt_trans hlt (hfirst o' ho')
    · rw [if_neg hlt]
      obtain ⟨hperm, hsorted'⟩ := ih hrest hnew
      refine ⟨(hperm.cons o).trans (.swap _ _ _), pairwise_cons.mpr ⟨?_, hsorted'⟩⟩
      intro o' ho'
      rcases mem_cons.mp (hperm.mem_iff.mp ho') with rfl | ho'
      · exact nameLt_of_not hne hlt
      · exact hfirst o' ho'

/-! ### Characters -/

theorem isNameChar_spec (hc : isNameChar c = true) :
    isChar c = true ∧ c ≠ ' ' ∧ c ≠ ';' ∧ c ≠ '=' ∧ c ≠ ':' ∧ isTspecial c = false := by
  have hne : ∀ d : Char, isNameChar d = false → c ≠ d := by
    rintro d hd rfl
    rw [hc] at hd
    cases hd
  have hspecial : isTspecial c = false := by
    rw [isTspecial, decide_eq_false_iff_not]
    simp [hne ' ' (by decide), hne '\x60' (by decide), hne '\x7b' (by decide), hne '\x7d' (by decide),
      hne '^' (by decide), hne '|' (by decide)]
  have hchar : isChar c = true := by
    simp only [isNameChar, Bool.or_eq_true, decide_eq_true_eq] at hc
    rcases hc with (halnum | rfl) | rfl
    · exact decide_eq_true (Nat.le_of_lt_succ (lt_of_isAlphanum halnum))
    · rfl
    · rfl
  exact ⟨hchar, hne _ (by decide), hne _ (by decide), hne _ (by decide), hne _ (by decide), hspecial⟩

theorem isNameChar_of_toLower (hc : isNameChar c.toLower = true) : isNameChar c = true := by
  by_cases hupper : c.isUpper = true
  · have halnum : (c.isUpper || c.isLower || c.isDigit) = true := by rw [hupper]; rfl
    have hname : c.isAlphanum = true := halnum
    simp [isNameChar, hname]
  · have hsame : c.toLower = c :=
      dif_neg fun hrange => hupper (decide_eq_true hrange)
    rwa [hsame] at hc

theorem isNameChar_of_attribute {name word : Str} (hname : Str.toLower name = word)
    (hword : ∀ c ∈ word, isNameChar c = true) : ∀ c ∈ name, isNameChar c = true := by
  intro c hc
  apply isNameChar_of_toLower
  apply hword
  rw [← hname]
  exact mem_map_of_mem hc

/-! ### Reading an item -/

structure CookieRead where
  tmp : List (Str × Str)
  httponly : Bool
  secure : Bool

namespace CookieRead

def start (r : CookieRead) : CookieParse := ⟨.cookieNameStart, [], [], r.tmp, r.httponly, r.secure⟩

def inside (r : CookieRead) : CookieItem → CookieParse
  | .assigned name value => ⟨.cookieValue, name, value, r.tmp, r.httponly, r.secure⟩
  | .flag name => ⟨.cookieName, name, [], r.tmp, r.httponly, r.secure⟩

def add (r : CookieRead) : CookieItem → CookieRead
  | .assigned name value => { r with tmp := assign name value r.tmp }
  | .flag name =>
    { r with
      secure := r.secure || Str.toLower name = "secure".toList
      httponly := r.httponly || Str.toLower name = "httponly".toList }

end CookieRead

def CookieParse.read (p : CookieParse) : CookieRead := ⟨p.tmp, p.httponly, p.secure⟩

def CookieItem.Plain : CookieItem → Prop
  | .assigned name value => IsName name ∧ IsValue value
  | .flag name => IsName name ∧ (Str.toLower name = "secure".toList ∨ Str.toLower name = "httponly".toList)

namespace CookieParse

variable {name : Str} {item : CookieItem}

theorem runs_name (hname : ∀ c ∈ name, isNameChar c = true) (p : CookieParse) (hp : p.state = .cookieName) :
    runs step p name = some { p with name := p.name ++ name } := by
  induction name generalizing p with
  | nil => simp [runs]
  | cons c name ih =>
    obtain ⟨hchar, -, hsemicolon, hequals, hcolon, hspecial⟩ := isNameChar_spec (hname c mem_cons_self)
    have hstep : step p c = .next { p with name := p.name ++ [c] } := by
      simp [step, hp, hsemicolon, hequals, hcolon, hspecial, hchar]
    rw [runs_cons hstep, ih (fun d hd => hname d (mem_cons_of_mem c hd)) { p with name := p.name ++ [c] } hp]
    simp

theorem runs_value {value : Str} (hvalue : ∀ c ∈ value, isValueChar c = true) (p : CookieParse) (hp : p.state = .cookieValue) :
    runs step p value = some { p with value := p.value ++ value } := by
  induction value generalizing p with
  | nil => simp [runs]
  | cons c value ih =>
    have hc := hvalue c mem_cons_self
    have hstep : step p c = .next { p with value := p.value ++ [c] } := by
      simp [isValueChar] at hc
      simp [step, hp, hc]
    rw [runs_cons hstep, ih (fun d hd => hvalue d (mem_cons_of_mem c hd)) { p with value := p.value ++ [c] } hp]
    simp

variable (r : CookieRead)

theorem runs_start_name (hname : IsName name) : runs step r.start name = some (r.inside (.flag name)) := by
  obtain ⟨c, name, rfl⟩ := exists_cons_of_ne_nil hname.ne_nil
  obtain ⟨hchar, hblank, -⟩ := isNameChar_spec (hname.isNameChar c mem_cons_self)
  have hstep : step r.start c = .next (r.inside (.flag [c])) := by
    simp [step, CookieRead.start, CookieRead.inside, hblank, hchar]
  rw [runs_cons hstep, runs_name (fun d hd => hname.isNameChar d (mem_cons_of_mem c hd)) _ rfl]
  rfl

theorem runs_item (hitem : item.Plain) : runs step r.start item.text = some (r.inside item) := by
  cases item with
  | flag name => exact runs_start_name r hitem.1
  | assigned name value =>
    obtain ⟨hname, hvalue⟩ := hitem
    obtain ⟨c, value, rfl⟩ := exists_cons_of_ne_nil hvalue.ne_nil
    have hc := hvalue.isValueChar c mem_cons_self
    have hequals : step (r.inside (.flag name)) '=' =
        .next ⟨.cookieValueStart, name, [], r.tmp, r.httponly, r.secure⟩ := rfl
    have hfirst : step ⟨.cookieValueStart, name, [], r.tmp, r.httponly, r.secure⟩ c =
        .next (r.inside (.assigned name [c])) := by
      simp [isValueChar] at hc
      simp [step, CookieRead.inside, hc]
    rw [CookieItem.text, runs_append (runs_start_name r hname), runs_cons hequals, runs_cons hfirst,
      runs_value (fun d hd => hvalue.isValueChar d (mem_cons_of_mem c hd)) _ rfl]
    rfl

theorem step_inside (hitem : item.Plain) : step (r.inside item) ';' = .next (r.add item).start := by
  cases item with
  | assigned name value => rfl
  | flag name =>
    rcases hitem.2 with hsecure | hhttponly
    · simp [step, setFlag, CookieRead.inside, CookieRead.add, CookieRead.start, hsecure]
    · simp [step, setFlag, CookieRead.inside, CookieRead.add, CookieRead.start, hhttponly]

theorem read_finish_inside (hitem : item.Plain) : (r.inside item).finish.read = r.add item := by
  cases item with
  | assigned name value =>
    have hvalue := hitem.2.ne_nil
    simp [finish, CookieRead.inside, store, read, CookieRead.add, hvalue]
  | flag name =>
    have hname := hitem.1.ne_nil
    rcases hitem.2 with hsecure | hhttponly
    · simp [finish, setFlag, CookieRead.inside, read, CookieRead.add, hname, hsecure]
    · simp [finish, setFlag, CookieRead.inside, read, CookieRead.add, hname, hhttponly]

end CookieParse

/-! ### Reading the header -/

theorem read_cookieHeader {items : List CookieItem} (hne : items ≠ []) (hplain : ∀ item ∈ items, item.Plain)
    (semicolon : Bool) (r : CookieRead) :
    (runs CookieParse.step r.start (cookieHeader items semicolon)).map (fun p => p.finish.read) =
      some (items.foldl CookieRead.add r) := by
  induction items generalizing r with
  | nil => exact absurd rfl hne
  | cons item rest ih =>
    have hitem := hplain item mem_cons_self
    cases rest with
    | nil =>
      rw [cookieHeader, map_singleton, intercalate_singleton, runs_append (CookieParse.runs_item r hitem)]
      cases semicolon with
      | false =>
        show some (r.inside item).finish.read = _
        rw [CookieParse.read_finish_inside r hitem]
        rfl
      | true =>
        rw [if_pos rfl, runs_cons (CookieParse.step_inside r hitem)]
        rfl
    | cons item' rest =>
      have hblank : CookieParse.step (r.add item).start ' ' = .next (r.add item).start := rfl
      have htext : cookieHeader (item :: item' :: rest) semicolon =
          item.text ++ ';' :: ' ' :: cookieHeader (item' :: rest) semicolon := by
        simp [cookieHeader, intercalate_cons_cons]
      rw [htext, runs_append (CookieParse.runs_item r hitem), runs_cons (CookieParse.step_inside r hitem),
        runs_cons hblank]
      exact ih (cons_ne_nil _ _) (fun i hi => hplain i (mem_cons_of_mem item hi)) (r.add item)

def CookieItem.pair? : CookieItem → Option (Str × Str)
  | .assigned name value => some (name, value)
  | .flag _ => none

def CookieItem.isFlag (word : Str) : CookieItem → Bool
  | .assigned _ _ => false
  | .flag name => Str.toLower name = word

theorem tmp_foldl_add {items : List CookieItem} {r : CookieRead} (hsorted : Sorted r.tmp)
    (hnodup : (r.tmp.map Prod.fst ++ (items.filterMap CookieItem.pair?).map Prod.fst).Nodup) :
    (items.foldl CookieRead.add r).tmp.Perm (r.tmp ++ items.filterMap CookieItem.pair?) ∧
      Sorted (items.foldl CookieRead.add r).tmp := by
  induction items generalizing r with
  | nil => exact ⟨by simp, hsorted⟩
  | cons item items ih =>
    cases item with
    | flag name => exact ih hsorted hnodup
    | assigned name value =>
      have hsplit : (CookieItem.assigned name value :: items).filterMap CookieItem.pair? =
          (name, value) :: items.filterMap CookieItem.pair? := rfl
      rw [hsplit, map_cons] at hnodup
      have hnew : name ∉ r.tmp.map Prod.fst := by
        intro hmem
        exact (nodup_append.mp hnodup).2.2 name hmem name mem_cons_self rfl
      obtain ⟨hperm, hsorted'⟩ := assign_new hsorted hnew value
      have hmoved : (r.tmp ++ (name, value) :: items.filterMap CookieItem.pair?).Perm
          ((assign name value r.tmp) ++ items.filterMap CookieItem.pair?) :=
        perm_middle.trans (hperm.symm.append_right _)
      have hnodup' := (hmoved.map Prod.fst).nodup (by simpa using hnodup)
      rw [map_append] at hnodup'
      obtain ⟨hall, hsorted''⟩ := ih (r := r.add (.assigned name value)) hsorted' hnodup'
      exact ⟨hall.trans hmoved.symm, hsorted''⟩

theorem flags_foldl_add (items : List CookieItem) (r : CookieRead) :
    (items.foldl CookieRead.add r).secure = (r.secure || items.any (CookieItem.isFlag "secure".toList)) ∧
      (items.foldl CookieRead.add r).httponly = (r.httponly || items.any (CookieItem.isFlag "httponly".toList)) := by
  induction items generalizing r with
  | nil => simp
  | cons item items ih =>
    rw [foldl_cons, (ih _).1, (ih _).2, any_cons, any_cons]
    cases item with
    | assigned name value => exact ⟨rfl, rfl⟩
    | flag name => exact ⟨Bool.or_assoc _ _ _, Bool.or_assoc _ _ _⟩

/-! ### The attributes -/

namespace CookieLib

variable (lib : CookieLib) (defaultDomain : Str)

theorem applyAttribute_eq (c : Cookie) {o : Str × Str} (ho : Str.toLower o.1 ≠ "expires".toList) (hvalue : o.2 ≠ []) :
    lib.applyAttribute defaultDomain c o =
      { c with
        domain := if Str.toLower o.1 = "domain".toList then o.2 else c.domain
        path := if Str.toLower o.1 = "path".toList then o.2 else c.path } := by
  have hother : ¬ "domain".toList = "path".toList := by decide
  rw [applyAttribute, if_neg ho]
  by_cases hdomain : Str.toLower o.1 = "domain".toList
  · rw [if_pos hdomain, if_pos hdomain, hdomain, if_neg hother, if_neg (fun h => hvalue h.1)]
  · rw [if_neg hdomain, if_neg hdomain]
    split
    · rfl
    · rfl

def lastOf (word : Str) (tmp : List (Str × Str)) (before : Str) : Str :=
  ((tmp.filter fun o => Str.toLower o.1 = word).getLast?.map Prod.snd).getD before

theorem lastOf_append (word : Str) (tmp : List (Str × Str)) (o : Str × Str) (before : Str) :
    lastOf word (tmp ++ [o]) before = if Str.toLower o.1 = word then o.2 else lastOf word tmp before := by
  unfold lastOf
  rw [filter_append, filter_singleton]
  by_cases hword : Str.toLower o.1 = word
  · rw [if_pos hword, decide_eq_true hword, cond_true, List.getLast?_concat]
    rfl
  · rw [if_neg hword, decide_eq_false hword, cond_false, append_nil]

theorem foldl_applyAttribute {tmp : List (Str × Str)} (htmp : ∀ o ∈ tmp, Str.toLower o.1 ≠ "expires".toList ∧ o.2 ≠ [])
    (c : Cookie) :
    tmp.foldl (lib.applyAttribute defaultDomain) c =
      { c with domain := lastOf "domain".toList tmp c.domain, path := lastOf "path".toList tmp c.path } := by
  induction tmp using List.reverseRecOn with
  | nil => rfl
  | append_singleton tmp o ih =>
    obtain ⟨ho, hvalue⟩ := htmp o (by simp)
    rw [foldl_append, ih fun o' ho' => htmp o' (by simp [ho']), lastOf_append, lastOf_append]
    exact lib.applyAttribute_eq defaultDomain _ ho hvalue

end CookieLib

namespace SetCookie

variable (h : SetCookie)

theorem isName_of_attribute {name word : Str} (hname : Str.toLower name = word) (hword : IsName word) : IsName name where
  ne_nil := by
    rintro rfl
    exact hword.ne_nil hname.symm
  isNameChar := isNameChar_of_attribute hname hword.isNameChar

theorem plain_of_mem_items {item : CookieItem} (hitem : item ∈ h.items) : item.Plain := by
  rcases mem_append.mp hitem with hassigned | hflag
  · obtain ⟨o, ho, rfl⟩ := mem_map.mp hassigned
    rcases mem_append.mp ho with ho | hdomain
    · rcases mem_append.mp ho with hpair | hpath
      · exact ⟨h.isName o hpair, h.isValue o hpair⟩
      · obtain ⟨hname, hvalue⟩ := h.path_spec o (Option.mem_toList.mp hpath)
        exact ⟨isName_of_attribute hname ⟨by decide, by decide⟩, hvalue⟩
    · obtain ⟨hname, hvalue⟩ := h.domain_spec o (Option.mem_toList.mp hdomain)
      exact ⟨isName_of_attribute hname ⟨by decide, by decide⟩, hvalue⟩
  · obtain ⟨name, hname, rfl⟩ := mem_map.mp hflag
    rcases mem_append.mp hname with hsecure | hhttponly
    · have hlower := h.secure_spec name (Option.mem_toList.mp hsecure)
      exact ⟨isName_of_attribute hlower ⟨by decide, by decide⟩, .inl hlower⟩
    · have hlower := h.httponly_spec name (Option.mem_toList.mp hhttponly)
      exact ⟨isName_of_attribute hlower ⟨by decide, by decide⟩, .inr hlower⟩

theorem lower_of_mem_pairs {o : Str × Str} (ho : o ∈ h.pairs) :
    Str.toLower o.1 ≠ "expires".toList ∧ Str.toLower o.1 ≠ "domain".toList ∧ Str.toLower o.1 ≠ "path".toList := by
  have hnone := h.noAttribute o ho
  simp only [mem_cons, not_or] at hnone
  exact ⟨hnone.1, hnone.2.1, hnone.2.2.1⟩

theorem filter_of_forall {α : Type*} {q : α → Bool} {b : Bool} {l : List α} (hl : ∀ a ∈ l, q a = b) :
    l.filter q = if b then l else [] := by
  cases b with
  | true => exact filter_eq_self.mpr hl
  | false => exact filter_eq_nil_iff.mpr fun a ha => by rw [hl a ha]; exact Bool.false_ne_true

theorem filter_assigned {q : Str × Str → Bool} (b₁ b₂ b₃ : Bool) (hpairs : ∀ o ∈ h.pairs, q o = b₁)
    (hpath : ∀ o ∈ h.path, q o = b₂) (hdomain : ∀ o ∈ h.domain, q o = b₃) :
    h.assigned.filter q =
      (if b₁ then h.pairs else []) ++ (if b₂ then h.path.toList else []) ++ if b₃ then h.domain.toList else [] := by
  rw [assigned, filter_append, filter_append, filter_of_forall hpairs,
    filter_of_forall fun o ho => hpath o (Option.mem_toList.mp ho),
    filter_of_forall fun o ho => hdomain o (Option.mem_toList.mp ho)]

theorem filter_assigned_pairs : (h.assigned.filter fun o => !isAttribute o.1) = h.pairs := by
  rw [h.filter_assigned true false false]
  · simp
  · intro o ho
    obtain ⟨hexpires, hdomain, hpath⟩ := h.lower_of_mem_pairs ho
    simp only [isAttribute, mem_cons, hexpires, hdomain, hpath]
    simp
  · intro o ho
    rw [isAttribute, (h.path_spec o ho).1]
    decide
  · intro o ho
    rw [isAttribute, (h.domain_spec o ho).1]
    decide

theorem filter_assigned_path : (h.assigned.filter fun o => Str.toLower o.1 = "path".toList) = h.path.toList := by
  rw [h.filter_assigned false true false]
  · simp
  · exact fun o ho => decide_eq_false (h.lower_of_mem_pairs ho).2.2
  · exact fun o ho => decide_eq_true (h.path_spec o ho).1
  · intro o ho
    rw [(h.domain_spec o ho).1]
    decide

theorem filter_assigned_domain : (h.assigned.filter fun o => Str.toLower o.1 = "domain".toList) = h.domain.toList := by
  rw [h.filter_assigned false false true]
  · simp
  · exact fun o ho => decide_eq_false (h.lower_of_mem_pairs ho).2.1
  · intro o ho
    rw [(h.path_spec o ho).1]
    decide
  · exact fun o ho => decide_eq_true (h.domain_spec o ho).1

theorem nodup_toList_map {α β : Type*} (o : Option α) (f : α → β) : (o.toList.map f).Nodup := by
  cases o with
  | none => exact nodup_nil
  | some a => exact nodup_singleton _

theorem nodup_assigned : (h.assigned.map Prod.fst).Nodup := by
  rw [assigned, map_append, map_append]
  refine List.Nodup.append (List.Nodup.append h.nodup (nodup_toList_map _ _) ?_) (nodup_toList_map _ _) ?_
  · intro name hpair hpath
    obtain ⟨o, ho, rfl⟩ := mem_map.mp hpair
    obtain ⟨o', ho', hname⟩ := mem_map.mp hpath
    have hlower := (h.path_spec o' (Option.mem_toList.mp ho')).1
    rw [hname] at hlower
    exact (h.lower_of_mem_pairs ho).2.2 hlower
  · intro name hbefore hdomain
    obtain ⟨o', ho', rfl⟩ := mem_map.mp hdomain
    have hlower := (h.domain_spec o' (Option.mem_toList.mp ho')).1
    rcases mem_append.mp hbefore with hpair | hpath
    · obtain ⟨o, ho, hname⟩ := mem_map.mp hpair
      rw [← hname] at hlower
      exact (h.lower_of_mem_pairs ho).2.1 hlower
    · obtain ⟨o, ho, hname⟩ := mem_map.mp hpath
      rw [← hname, (h.path_spec o (Option.mem_toList.mp ho)).1] at hlower
      exact absurd hlower (by decide)

theorem filterMap_items : h.items.filterMap CookieItem.pair? = h.assigned := by
  have hflags : (h.flags.map CookieItem.flag).filterMap CookieItem.pair? = [] := by
    rw [filterMap_map]
    exact filterMap_eq_nil_iff.mpr fun _ _ => rfl
  rw [items, filterMap_append, hflags, append_nil, filterMap_map]
  exact filterMap_some

theorem any_isFlag_items (word : Str) : h.items.any (CookieItem.isFlag word) = h.flags.any fun name => Str.toLower name = word := by
  have hassigned : (h.assigned.map fun o => CookieItem.assigned o.1 o.2).any (CookieItem.isFlag word) = false := by
    rw [any_map]
    exact any_eq_false.mpr fun _ _ => Bool.false_ne_true
  rw [items, any_append, hassigned, Bool.false_or, any_map]
  rfl

end SetCookie

theorem CookieLib.parseCookieString_eq (lib : CookieLib) (defaultDomain str : Str) :
    lib.parseCookieString defaultDomain str =
      ((runs CookieParse.step (CookieRead.start ⟨[], false, false⟩) str).map fun p => p.finish.read).map fun r =>
        (r.tmp.filter fun o => !isAttribute o.1).map fun o =>
          { r.tmp.foldl (lib.applyAttribute defaultDomain) ⟨[], [], [], [], none, r.httponly, r.secure⟩ with
            name := o.1, value := o.2 } := by
  rw [Option.map_map]
  rfl

theorem eq_toList_of_perm {α : Type*} {l : List α} {o : Option α} (hperm : l.Perm o.toList) : l = o.toList := by
  cases o with
  | none => exact perm_nil.mp hperm
  | some a => exact perm_singleton.mp hperm

theorem CookieLib.lastOf_eq {word : Str} {tmp assigned : List (Str × Str)} {o : Option (Str × Str)} (hperm : tmp.Perm assigned)
    (ho : assigned.filter (fun o => Str.toLower o.1 = word) = o.toList) : lastOf word tmp [] = (o.map Prod.snd).getD [] := by
  have hfilter := hperm.filter fun o => Str.toLower o.1 = word
  rw [ho] at hfilter
  rw [lastOf, eq_toList_of_perm hfilter]
  cases o with
  | none => rfl
  | some a => rfl

namespace SetCookie

theorem any_toList {o : Option Str} {word : Str} (ho : ∀ name ∈ o, Str.toLower name = word) (word' : Str) :
    (o.toList.any fun name => Str.toLower name = word') = (o.isSome && word = word') := by
  cases o with
  | none => rfl
  | some name => simp [ho name rfl]

theorem any_flags (h : SetCookie) :
    (h.flags.any fun name => Str.toLower name = "secure".toList) = h.secure.isSome ∧
      (h.flags.any fun name => Str.toLower name = "httponly".toList) = h.httponly.isSome := by
  rw [flags, any_append, any_append, any_toList h.secure_spec, any_toList h.secure_spec,
    any_toList h.httponly_spec, any_toList h.httponly_spec]
  simp

theorem attribute_of_mem_assigned {h : SetCookie} {o : Str × Str} (ho : o ∈ h.assigned) :
    Str.toLower o.1 ≠ "expires".toList ∧ o.2 ≠ [] := by
  have hplain : (CookieItem.assigned o.1 o.2).Plain :=
    h.plain_of_mem_items (mem_append_left _ (mem_map.mpr ⟨o, ho, rfl⟩))
  refine ⟨?_, hplain.2.ne_nil⟩
  rcases mem_append.mp ho with ho | hdomain
  · rcases mem_append.mp ho with hpair | hpath
    · exact (h.lower_of_mem_pairs hpair).1
    · rw [(h.path_spec o (Option.mem_toList.mp hpath)).1]
      decide
  · rw [(h.domain_spec o (Option.mem_toList.mp hdomain)).1]
    decide

/-- The parser returns one cookie for each name, in the order of the names, with its value and with all attributes. -/
theorem parseCookieString_cookieHeader (lib : CookieLib) (h : SetCookie) (items : List CookieItem)
    (horder : items.Perm h.items) (semicolon : Bool) (defaultDomain : Str) :
    ∃ sorted : List (Str × Str), sorted.Perm h.pairs ∧ sorted.Pairwise (fun a b => nameLt a.1 b.1 = true) ∧
      lib.parseCookieString defaultDomain (cookieHeader items semicolon) = some (sorted.map h.cookie) := by
  have hne : items ≠ [] := by
    rintro rfl
    have hnil := h.filterMap_items
    rw [nil_perm.mp horder] at hnil
    have hassigned : h.pairs = [] := by
      rw [assigned, filterMap_nil] at hnil
      exact (append_eq_nil_iff.mp (append_eq_nil_iff.mp hnil.symm).1).1
    exact h.pairs_ne_nil hassigned
  have hpairs : (items.filterMap CookieItem.pair?).Perm h.assigned := h.filterMap_items ▸ horder.filterMap _
  have hread := read_cookieHeader hne (fun i hi => h.plain_of_mem_items (horder.mem_iff.mp hi)) semicolon ⟨[], false, false⟩
  obtain ⟨hall, hsorted⟩ := @tmp_foldl_add items ⟨[], false, false⟩ List.Pairwise.nil
    ((hpairs.map Prod.fst).nodup_iff.mpr h.nodup_assigned)
  obtain ⟨hsecure, hhttponly⟩ := flags_foldl_add items ⟨[], false, false⟩
  rw [Bool.false_or, horder.any_eq, h.any_isFlag_items] at hsecure hhttponly
  rw [(any_flags h).1] at hsecure
  rw [(any_flags h).2] at hhttponly
  generalize items.foldl CookieRead.add ⟨[], false, false⟩ = r at hread hall hsorted hsecure hhttponly
  have hperm : r.tmp.Perm h.assigned := hall.trans hpairs
  refine ⟨r.tmp.filter fun o => !isAttribute o.1, ?_, hsorted.filter _, ?_⟩
  · have hfilter := hperm.filter fun o => !isAttribute o.1
    rwa [h.filter_assigned_pairs] at hfilter
  · have htmp : ∀ o ∈ r.tmp, Str.toLower o.1 ≠ "expires".toList ∧ o.2 ≠ [] :=
      fun o ho => attribute_of_mem_assigned (hperm.mem_iff.mp ho)
    rw [lib.parseCookieString_eq, hread, Option.map_some, lib.foldl_applyAttribute defaultDomain htmp,
      CookieLib.lastOf_eq hperm h.filter_assigned_domain, CookieLib.lastOf_eq hperm h.filter_assigned_path, hsecure, hhttponly]
    rfl

def sample : SetCookie where
  pairs := [("b".toList, "2=".toList), ("a".toList, " 1".toList)]
  path := some ("Path".toList, "/".toList)
  domain := none
  secure := some "secure".toList
  httponly := none
  pairs_ne_nil := by decide
  nodup := by decide
  isName := by
    intro o ho
    simp only [mem_cons, not_mem_nil, or_false] at ho
    rcases ho with rfl | rfl
    · exact ⟨by decide, by decide⟩
    · exact ⟨by decide, by decide⟩
  isValue := by
    intro o ho
    simp only [mem_cons, not_mem_nil, or_false] at ho
    rcases ho with rfl | rfl
    · exact ⟨by decide, by decide⟩
    · exact ⟨by decide, by decide⟩
  noAttribute := by decide
  path_spec := by
    intro o ho
    obtain rfl := Option.mem_some_iff.mp ho
    exact ⟨by decide, by decide, by decide⟩
  domain_spec o ho := absurd ho (Option.not_mem_none o)
  secure_spec := by
    intro name hname
    obtain rfl := Option.mem_some_iff.mp hname
    decide
  httponly_spec name hname := absurd hname (Option.not_mem_none name)

theorem parseCookieString_cookieHeader_sample :
    let lib := CookieLib.byInsertion (fun _ => none) (fun _ _ => true)
    ∃ sorted : List (Str × Str), sorted.Perm sample.pairs ∧ sorted.Pairwise (fun a b => nameLt a.1 b.1 = true) ∧
      lib.parseCookieString [] (cookieHeader [.assigned "b".toList "2=".toList, .flag "secure".toList,
        .assigned "Path".toList "/".toList, .assigned "a".toList " 1".toList] true) = some (sorted.map sample.cookie) := by
  intro lib
  exact parseCookieString_cookieHeader lib sample _ (by decide) true []

end SetCookie

end Avbot.Http
