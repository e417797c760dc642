import Avbot.Http.AsyncOpen

/-!
# The lines of a request

`request` and `async_request` write four headers first, from the options or a default. An option is looked up without regard to its case, and then removed by its exact name, and only once. What is left of the options is written behind.
-/

namespace Avbot.Http

open List
open HttpClient (fresh isInternal)
open Str (crlf toLower)
open HttpOptions (accept connection httpVersion requestBody requestMethod statusCode userAgent)
open Httpd (Options cutLine)

def namedBy (key : Str) (opts : Options) : Options := opts.filter fun o => toLower o.1 = toLower key

variable {key other : Str} {o : Str × Str}

theorem namedBy_cons_of_eq (ho : toLower o.1 = toLower key) (opts : Options) :
    namedBy key (o :: opts) = o :: namedBy key opts :=
  filter_cons_of_pos (decide_eq_true ho)

theorem namedBy_cons_of_ne (ho : toLower o.1 ≠ toLower key) (opts : Options) :
    namedBy key (o :: opts) = namedBy key opts :=
  filter_cons_of_neg (by rwa [decide_eq_true_eq])

theorem find?_eq_head? (opts : Options) (key : Str) : opts.find? key = (namedBy key opts).head?.map Prod.snd := by
  rw [Options.find?, namedBy, List.head?_filter]

theorem namedBy_remove_other (hother : toLower other ≠ toLower key) (opts : Options) :
    namedBy key (opts.remove other) = namedBy key opts := by
  induction opts with
  | nil => rfl
  | cons o opts ih =>
    rw [Options.remove]
    split
    case isTrue heq =>
      rw [namedBy_cons_of_ne (heq ▸ hother)]
    case isFalse =>
      by_cases ho : toLower o.1 = toLower key
      · rw [namedBy_cons_of_eq ho, namedBy_cons_of_eq ho, ih]
      · rw [namedBy_cons_of_ne ho, namedBy_cons_of_ne ho, ih]

theorem namedBy_remove_self (key : Str) (opts : Options) : namedBy key (opts.remove key) = (namedBy key opts).remove key := by
  induction opts with
  | nil => rfl
  | cons o opts ih =>
    by_cases heq : o.1 = key
    · have hlower : toLower o.1 = toLower key := by rw [heq]
      rw [namedBy_cons_of_eq hlower, Options.remove, Options.remove, if_pos heq, if_pos heq]
    · rw [Options.remove, if_neg heq]
      by_cases ho : toLower o.1 = toLower key
      · rw [namedBy_cons_of_eq ho, namedBy_cons_of_eq ho, ih, Options.remove, if_neg heq]
      · rw [namedBy_cons_of_ne ho, namedBy_cons_of_ne ho, ih]

theorem remove_eq_nil_iff (opts : Options) (key : Str) : opts.remove key = [] ↔ opts = [] ∨ ∃ v, opts = [(key, v)] := by
  cases opts with
  | nil => simp [Options.remove]
  | cons o opts =>
    rw [Options.remove]
    by_cases heq : o.1 = key
    · subst heq
      simp [Prod.ext_iff]
    · simp [heq, Prod.ext_iff]

theorem remove_of_find?_none {opts : Options} (hnone : opts.find? key = none) : opts.remove key = opts := by
  induction opts with
  | nil => rfl
  | cons o opts ih =>
    have ho : toLower o.1 ≠ toLower key := by
      intro ho
      rw [Options.find?_cons_of_eq ho] at hnone
      cases hnone
    rw [Options.find?_cons_of_ne ho] at hnone
    rw [Options.remove, if_neg (fun h => ho (by rw [h])), ih hnone]

theorem takeOption_eq (opts : Options) (key default : Str) :
    takeOption opts key default = ((opts.find? key).getD default, opts.remove key) := by
  unfold takeOption
  cases hfind : opts.find? key with
  | none => rw [remove_of_find?_none hfind]; rfl
  | some val => rfl

theorem find?_remove_other (hother : toLower other ≠ toLower key) (opts : Options) :
    (opts.remove other).find? key = opts.find? key := by
  rw [find?_eq_head?, find?_eq_head?, namedBy_remove_other hother]

def standardHeaders : List Str := [HttpOptions.host, accept, userAgent, connection]

def takenKeys : List Str :=
  [HttpOptions.url, requestMethod, httpVersion, HttpOptions.host, accept,
    userAgent, connection, requestBody]

def otherOptions (opts : Options) : Options :=
  (takenKeys.foldl Options.remove opts).filter fun o => !isInternal o.1

def optionOr (opts : Options) (key default : Str) : Str := (opts.find? key).getD default

namespace HttpClient

def requestLine (s : HttpClient) (opts : Options) : Str :=
  optionOr opts requestMethod "GET".toList ++ [' '] ++
    s.mUrl.toString { path := true, query := true, fragment := true } ++ [' '] ++
    optionOr opts httpVersion "HTTP/1.1".toList

def headLines (lib : CookieLib) (now : Int) (s : HttpClient) (opts : Options) : List (Str × Str) :=
  let cookie := lib.getCookieLine s.mCookies s.https now [] []
  [(HttpOptions.host, optionOr opts HttpOptions.host (s.mUrl.toString { host := true, port := true })),
    (accept, optionOr opts accept "text/html, application/xhtml+xml, */*".toList),
    (userAgent, optionOr opts userAgent "avhttp/2.9.9".toList)] ++
  (if cookie = [] then [] else [("Cookie".toList, cookie)]) ++
  [(connection, optionOr opts connection "close".toList)] ++ otherOptions opts

variable {s s' : HttpClient} {lib : CookieLib} {now : Int} {request : Request}

theorem composeRequest_text (connected : Str) (opts : Options) (hproxy : s.throughProxy = false) :
    (composeRequest lib now connected (opts.remove HttpOptions.url) s).1.text =
      s.requestLine opts ++ crlf ++ (s.headLines lib now opts).flatMap (fun o => headerLine o.1 o.2) ++ crlf ++
        optionOr opts requestBody [] := by
  have hauth : s.auth = [] := by simp [auth, hproxy]
  unfold composeRequest composeRequestWith
  simp only [takeOption_eq, hproxy, hauth]
  simp (disch := decide) only [find?_remove_other]
  unfold Request.text requestLine headLines
  rw [CookieLib.getCookieLine]
  generalize Cookie.line (lib.selected s.mCookies s.https now [] []) = cookie
  by_cases hcookie : cookie = []
  · simp [hcookie, optionOr, otherOptions, takenKeys]
  · simp [hcookie, optionOr, otherOptions, takenKeys, headerLine]

theorem buildRequest_text (hproxy : s.mProxy.type = .none) (hbuild : s.buildRequest lib now = some (request, s')) :
    request.text =
      s'.requestLine s.mRequestOptsPriv ++ crlf ++
        (s'.headLines lib now s.mRequestOptsPriv).flatMap (fun o => headerLine o.1 o.2) ++ crlf ++
        optionOr s.mRequestOptsPriv requestBody [] := by
  rw [buildRequest, takeOption_eq] at hbuild
  obtain ⟨s₁, hreplace, hcompose⟩ := Option.map_eq_some_iff.mp hbuild
  obtain ⟨rfl, rfl⟩ := Prod.mk.inj hcompose
  obtain ⟨u, opts, rfl⟩ := replaceUrl_spec hreplace
  have hdirect : throughProxy { s.resetRequest with mUrl := u, mRequestOpts := opts } = false := by
    simp [throughProxy, resetRequest, hproxy]
  exact composeRequest_text s.mUrl.host s.mRequestOptsPriv hdirect

end HttpClient

theorem namedBy_append (key : Str) (opts opts' : Options) : namedBy key (opts ++ opts') = namedBy key opts ++ namedBy key opts' :=
  filter_append opts opts'

variable {key name : Str}

theorem namedBy_foldl_remove {keys : List Str} (hkeys : ∀ k ∈ keys, toLower k ≠ toLower key)
    (opts : Options) : namedBy key (keys.foldl Options.remove opts) = namedBy key opts := by
  induction keys generalizing opts with
  | nil => rfl
  | cons k keys ih =>
    rw [foldl_cons, ih fun k' hk' => hkeys k' (mem_cons_of_mem k hk'), namedBy_remove_other (hkeys k mem_cons_self)]

def fixedNames : List Str := takenKeys ++ ["Cookie".toList, HttpOptions.path, statusCode]

theorem nodup_fixedNames : (fixedNames.map toLower).Nodup := by decide

theorem toLower_ne_of_fixedNames (hname : name ∈ fixedNames) (hkey : key ∈ fixedNames) (hne : name ≠ key) :
    toLower name ≠ toLower key :=
  fun heq => hne (inj_on_of_nodup_map nodup_fixedNames hname hkey heq)

theorem mem_takenKeys_of_standard (hkey : key ∈ standardHeaders) : key ∈ takenKeys :=
  mem_of_mem_drop (i := 3) (mem_of_mem_take (i := 4) hkey)

theorem toLower_ne_of_isInternal (hkey : key ∈ standardHeaders) (hname : isInternal name = true) :
    toLower name ≠ toLower key := by
  have hnames : ∀ name ∈ [HttpOptions.path, HttpOptions.url, requestMethod, httpVersion,
      requestBody, statusCode], name ∈ fixedNames ∧ name ∉ standardHeaders := by decide
  obtain ⟨hfixed, hother⟩ := hnames name (of_decide_eq_true hname)
  exact toLower_ne_of_fixedNames hfixed (mem_append_left _ (mem_takenKeys_of_standard hkey)) fun heq => hother (heq ▸ hkey)

theorem namedBy_otherOptions (hkey : key ∈ standardHeaders) (opts : Options) :
    namedBy key (otherOptions opts) = (namedBy key opts).remove key := by
  have hinternal : namedBy key (otherOptions opts) = namedBy key (takenKeys.foldl Options.remove opts) := by
    rw [namedBy, otherOptions, filter_filter]
    apply filter_congr
    intro o _
    by_cases ho : toLower o.1 = toLower key
    · have hvisible : isInternal o.1 = false :=
        Bool.eq_false_iff.mpr fun h => toLower_ne_of_isInternal hkey h ho
      simp [ho, hvisible]
    · simp [ho]
  have hnodup : takenKeys.Nodup := (List.Nodup.of_map _ nodup_fixedNames).sublist (sublist_append_left _ _)
  obtain ⟨before, after, htaken⟩ := append_of_mem (mem_takenKeys_of_standard hkey)
  have hkeys : ∀ k ∈ before ++ after, toLower k ≠ toLower key := by
    intro k hk
    rw [htaken, nodup_middle, nodup_cons] at hnodup
    have hmem : ∀ k ∈ before ++ key :: after, k ∈ fixedNames := fun k hk => mem_append_left _ (htaken ▸ hk)
    refine toLower_ne_of_fixedNames (hmem k ?_) (hmem key (by simp)) fun heq => hnodup.1 (heq ▸ hk)
    rcases mem_append.mp hk with hbefore | hafter
    · exact mem_append_left _ hbefore
    · exact mem_append_right _ (mem_cons_of_mem key hafter)
  rw [hinternal, htaken, foldl_append, foldl_cons,
    namedBy_foldl_remove fun k hk => hkeys k (mem_append_right before hk), namedBy_remove_self,
    namedBy_foldl_remove fun k hk => hkeys k (mem_append_left after hk)]

theorem namedBy_headLines {lib : CookieLib} {now : Int} {s : HttpClient} {key : Str} (hkey : key ∈ standardHeaders)
    (opts : Options) :
    ∃ default, namedBy key (s.headLines lib now opts) = (key, optionOr opts key default) :: (namedBy key opts).remove key := by
  have hcookie : ∀ cookie : Str, namedBy key (if cookie = [] then [] else [("Cookie".toList, cookie)]) = [] := by
    intro cookie
    have hname : toLower "Cookie".toList ≠ toLower key :=
      toLower_ne_of_fixedNames (by decide) (mem_append_left _ (mem_takenKeys_of_standard hkey)) (by rintro rfl; revert hkey; decide)
    split
    · rfl
    · exact namedBy_cons_of_ne hname []
  have hother := namedBy_otherOptions hkey opts
  rw [HttpClient.headLines, namedBy_append, namedBy_append, namedBy_append, hcookie, hother]
  simp only [standardHeaders, mem_cons, not_mem_nil, or_false] at hkey
  rcases hkey with rfl | rfl | rfl | rfl
  · exact ⟨_, rfl⟩
  · exact ⟨_, rfl⟩
  · exact ⟨_, rfl⟩
  · exact ⟨_, rfl⟩

def OneLine (key : Str) (opts lines : Options) : Prop :=
  ∃ o, namedBy key lines = [o] ∧ ∀ v, opts.find? key = some v → o.2 = v

def SpelledOnce (key : Str) (opts : Options) : Prop := namedBy key opts = [] ∨ ∃ v, namedBy key opts = [(key, v)]

theorem oneLine_headLines_iff {lib : CookieLib} {now : Int} {s : HttpClient} (hkey : key ∈ standardHeaders)
    (opts : Options) : OneLine key opts (s.headLines lib now opts) ↔ SpelledOnce key opts := by
  obtain ⟨default, hlines⟩ := @namedBy_headLines lib now s key hkey opts
  rw [OneLine, SpelledOnce, hlines, ← remove_eq_nil_iff]
  constructor
  · rintro ⟨o, ho, -⟩
    exact (List.cons.inj ho).2
  · intro hnone
    refine ⟨(key, optionOr opts key default), by rw [hnone], ?_⟩
    intro v hv
    rw [optionOr, hv]
    rfl

def readLines : Nat → Str → List Str
  | 0, _ => []
  | n + 1, text =>
    match cutLine text with
    | none => []
    | some (line, rest) => if line = [] then [] else line :: readLines n rest

def readHeader (line : Str) : Str × Str := (line.takeWhile (· ≠ ':'), (line.dropWhile (· ≠ ':')).drop 2)

def readHead (text : Str) : List (Str × Str) := ((readLines text.length text).drop 1).map readHeader

theorem readLines_eq {lines : List Str} (hlines : ∀ l ∈ lines, l ≠ [] ∧ '\n' ∉ l) {n : Nat} (hn : lines.length < n) (rest : Str) :
    readLines n (lines.flatMap (· ++ crlf) ++ (crlf ++ rest)) = lines := by
  induction lines generalizing n with
  | nil =>
    obtain ⟨n, rfl⟩ := Nat.exists_eq_add_of_lt hn
    rfl
  | cons l lines ih =>
    obtain ⟨hne, hbreak⟩ := hlines l mem_cons_self
    obtain _ | n := n
    · cases hn
    have htext : (l :: lines).flatMap (· ++ crlf) ++ (crlf ++ rest) =
        l ++ '\r' :: '\n' :: (lines.flatMap (· ++ crlf) ++ (crlf ++ rest)) := by
      simp [crlf]
    rw [readLines, htext, Httpd.cutLine_line hbreak]
    dsimp only
    rw [if_neg hne, ih (fun l' hl' => hlines l' (mem_cons_of_mem l hl')) (by simp at hn; omega)]

theorem readHeader_eq {o : Str × Str} (hname : ':' ∉ o.1) : readHeader (o.1 ++ ": ".toList ++ o.2) = o := by
  have hall : ∀ c ∈ o.1, decide (c ≠ ':') = true := by
    intro c hc
    exact decide_eq_true fun h => hname (h ▸ hc)
  rw [readHeader, append_assoc, takeWhile_append_of_pos hall, dropWhile_append_of_pos hall]
  simp

theorem readHead_eq {first body : Str} {lines : List (Str × Str)} (hfirst : first ≠ [] ∧ '\n' ∉ first)
    (hlines : ∀ o ∈ lines, ':' ∉ o.1 ∧ '\n' ∉ o.1 ∧ '\n' ∉ o.2) :
    readHead (first ++ crlf ++ lines.flatMap (fun o => HttpClient.headerLine o.1 o.2) ++ crlf ++ body) = lines := by
  set texts := lines.map fun o => o.1 ++ ": ".toList ++ o.2 with htexts
  have htext : first ++ crlf ++ lines.flatMap (fun o => HttpClient.headerLine o.1 o.2) ++ crlf ++ body =
      (first :: texts).flatMap (· ++ crlf) ++ (crlf ++ body) := by
    rw [htexts, flatMap_cons, flatMap_map]
    simp [HttpClient.headerLine]
  have hall : ∀ l ∈ first :: texts, l ≠ [] ∧ '\n' ∉ l := by
    intro l hl
    rcases mem_cons.mp hl with rfl | hl
    · exact hfirst
    · obtain ⟨o, ho, rfl⟩ := mem_map.mp hl
      obtain ⟨-, hname, hvalue⟩ := hlines o ho
      exact ⟨by simp, by simp [hname, hvalue]⟩
  have hlong : (first :: texts).length < ((first :: texts).flatMap (· ++ crlf) ++ (crlf ++ body)).length := by
    have hle := HttpClient.length_le_flatMap_crlf (first :: texts)
    rw [length_append, length_append]
    simp [crlf] at hle ⊢
    omega
  rw [htext, readHead, readLines_eq hall hlong, drop_one, tail_cons, htexts, map_map]
  exact (map_congr_left fun o ho => readHeader_eq (hlines o ho).1).trans (map_id lines)

/-- Without a proxy both functions write the same request. Each of the four headers is there once, with the value of its first option, exactly if for none of them there is an option that is spelled in another way or occurs again. -/
theorem standardHeaders_once_iff (lib : CookieLib) (now : Int) (s s' : HttpClient) (request : Request)
    (hproxy : s.mProxy.type = .none) (hbuild : s.buildRequest lib now = some (request, s')) :
    s.asyncBuildRequest lib now = some (request, s') ∧
      request.text =
        s'.requestLine s.mRequestOptsPriv ++ crlf ++
          (s'.headLines lib now s.mRequestOptsPriv).flatMap (fun o => HttpClient.headerLine o.1 o.2) ++ crlf ++
          optionOr s.mRequestOptsPriv requestBody [] ∧
      ('\n' ∉ s'.requestLine s.mRequestOptsPriv →
        (∀ o ∈ s'.headLines lib now s.mRequestOptsPriv, ':' ∉ o.1 ∧ '\n' ∉ o.1 ∧ '\n' ∉ o.2) →
        readHead request.text = s'.headLines lib now s.mRequestOptsPriv) ∧
      ((∀ key ∈ standardHeaders, OneLine key s.mRequestOptsPriv (s'.headLines lib now s.mRequestOptsPriv)) ↔
        ∀ key ∈ standardHeaders, SpelledOnce key s.mRequestOptsPriv) := by
  have htext := HttpClient.buildRequest_text hproxy hbuild
  refine ⟨(HttpClient.asyncBuildRequest_eq lib now hproxy).trans hbuild, htext, ?_, ?_⟩
  · intro hfirst hlines
    rw [htext]
    exact readHead_eq ⟨by simp [HttpClient.requestLine], hfirst⟩ hlines
  · exact forall_congr' fun key => forall_congr' fun hkey => oneLine_headLines_iff hkey s.mRequestOptsPriv

theorem standardHeaders_once_host :
    let lib := CookieLib.byInsertion (fun _ => none) (fun _ _ => true)
    let s : HttpClient := { fresh with mUrl := sampleUrl, mRequestOptsPriv := [("Host".toList, "b.com".toList)] }
    ∃ request s', s.buildRequest lib 0 = some (request, s') ∧
      ∀ key ∈ standardHeaders, OneLine key s.mRequestOptsPriv (s'.headLines lib 0 s.mRequestOptsPriv) := by
  intro lib s
  have hsome : (s.buildRequest lib 0).isSome = true := by decide
  obtain ⟨⟨request, s'⟩, hbuild⟩ := Option.isSome_iff_exists.mp hsome
  refine ⟨request, s', hbuild, (standardHeaders_once_iff lib 0 s s' request rfl hbuild).2.2.2.mpr ?_⟩
  intro key hkey
  simp only [standardHeaders, mem_cons, not_mem_nil, or_false] at hkey
  rcases hkey with rfl | rfl | rfl | rfl
  · exact .inr ⟨"b.com".toList, rfl⟩
  · exact .inl rfl
  · exact .inl rfl
  · exact .inl rfl

/-- An option in small letters makes a second line. -/
theorem host_written_twice :
    let lib := CookieLib.byInsertion (fun _ => none) (fun _ _ => true)
    let s : HttpClient := { fresh with mUrl := sampleUrl, mRequestOptsPriv := [("host".toList, "b.com".toList)] }
    ((s.buildRequest lib 0).map fun r => namedBy HttpOptions.host (readHead r.1.text)) =
        some [("Host".toList, "b.com".toList), ("host".toList, "b.com".toList)] ∧
      ((s.asyncBuildRequest lib 0).map fun r => namedBy HttpOptions.host (readHead r.1.text)) =
        some [("Host".toList, "b.com".toList), ("host".toList, "b.com".toList)] := by
  decide +kernel

end Avbot.Http
