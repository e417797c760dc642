import Avbot.Base.StringAlgo
import Avbot.Lib.DoWhile

/-!
# The conditions on domain and path

`build_domain_conditions` and `build_path_conditions` write lists of texts in double quotes: the domains a cookie of the host can have, and the paths above the path of the URL. Both are written by a loop that shortens its argument in every turn.
-/

namespace Avbot.CookieStore

open List

/-- What a turn of the loop writes, with `prepend_gama`. -/
def writeDomain (condition : Str × Bool) (domain : Str) : Str × Bool :=
  (condition.1 ++ (if condition.2 then " ,  ".toList else []) ++
    "\"".toList ++ domain ++ "\" , \".".toList ++ domain ++ "\" ".toList, true)

def buildDomainConditions (turns : Nat) (domain : Str) : Option Str :=
  (DoWhile.run (fun p : (Str × Bool) × Str => (writeDomain p.1 p.2, DoWhile.afterFirst '.' p.2)) (fun p => '.' ∈ p.2)
    turns (("domain in (".toList, false), domain)).map fun p => p.1.1 ++ ")".toList

def writePath (condition path : Str) : Str := condition ++ ", \"".toList ++ path ++ "\"".toList

def cutQuery (path : Str) : Str := path.takeWhile (· ≠ '?')

def buildPathConditions (turns : Nat) (path : Str) : Option Str :=
  (DoWhile.run (fun p : Str × Str => (writePath p.1 p.2, DoWhile.beforeLast '/' p.2)) (fun p => '/' ∈ p.2)
    turns ("path in ( \"/\"".toList, cutQuery path)).map fun p => p.1 ++ ")".toList

def listedFrom : Option Str → Str → List Str
  | _, [] => []
  | none, c :: text => if c = '"' then listedFrom (some []) text else listedFrom none text
  | some s, c :: text => if c = '"' then s :: listedFrom none text else listedFrom (some (s ++ [c])) text

def listed (text : Str) : List Str := listedFrom none text

example : (buildDomainConditions 20 "ptlogin2.qq.com".toList).map listed =
    some ["ptlogin2.qq.com".toList, ".ptlogin2.qq.com".toList, "qq.com".toList, ".qq.com".toList] := by decide

theorem listedFrom_outside {gap : Str} (hgap : '"' ∉ gap) (text : Str) :
    listedFrom none (gap ++ text) = listedFrom none text := by
  induction gap with
  | nil => rfl
  | cons c gap ih =>
    obtain ⟨hc, hgap⟩ := not_or.mp (mt mem_cons.mpr hgap)
    rw [cons_append, listedFrom, if_neg (Ne.symm hc), ih hgap]

variable {s text path : Str} {items : List Str} {condition : Str × Bool}

theorem listedFrom_inside (hs : '"' ∉ s) (begun text : Str) :
    listedFrom (some begun) (s ++ '"' :: text) = (begun ++ s) :: listedFrom none text := by
  induction s generalizing begun with
  | nil => rw [nil_append, listedFrom, if_pos rfl, append_nil]
  | cons c s ih =>
    obtain ⟨hc, hs⟩ := not_or.mp (mt mem_cons.mpr hs)
    rw [cons_append, listedFrom, if_neg (Ne.symm hc), ih hs, append_assoc]
    rfl

def Lists (text : Str) (items : List Str) : Prop := ∀ rest, listed (text ++ rest) = items ++ listed rest

theorem lists_gap {gap : Str} (hgap : '"' ∉ gap) : Lists gap [] := listedFrom_outside hgap

theorem Lists.append {text' : Str} {items' : List Str} (h : Lists text items) (h' : Lists text' items') :
    Lists (text ++ text') (items ++ items') := by
  intro rest
  rw [append_assoc, h, h', append_assoc]

theorem lists_quoted (hs : '"' ∉ s) : Lists ('"' :: (s ++ ['"'])) [s] := by
  intro rest
  unfold listed
  rw [cons_append, listedFrom, if_pos rfl, append_assoc, singleton_append, listedFrom_inside hs]
  rfl

theorem Lists.listed_eq (h : Lists text items) : listed (text ++ ")".toList) = items := by
  rw [h]
  exact append_nil _

theorem Lists.writeDomain (h : Lists condition.1 items) {domain : Str}
    (hdomain : '"' ∉ domain) : Lists (writeDomain condition domain).1 (items ++ [domain, '.' :: domain]) := by
  have hcomma : Lists (if condition.2 then " ,  ".toList else []) [] := by
    split
    · exact lists_gap (by decide)
    · exact lists_gap not_mem_nil
  have hdot : '"' ∉ '.' :: domain := by simpa using hdomain
  have hpair := (lists_quoted hdomain).append ((@lists_gap " , ".toList (by decide)).append
    ((lists_quoted hdot).append (@lists_gap " ".toList (by decide))))
  have hall := (h.append hcomma).append hpair
  have htext : (CookieStore.writeDomain condition domain).1 =
      condition.1 ++ (if condition.2 then " ,  ".toList else []) ++
        ('"' :: (domain ++ ['"']) ++ (" , ".toList ++ ('"' :: ('.' :: domain ++ ['"']) ++ " ".toList))) := by
    simp [CookieStore.writeDomain]
  rw [htext]
  simpa using hall

theorem Lists.writePath {condition : Str} (h : Lists condition items)
    (hpath : '"' ∉ path) : Lists (writePath condition path) (items ++ [path]) := by
  have hall := h.append ((@lists_gap ", ".toList (by decide)).append (lists_quoted hpath))
  have htext : CookieStore.writePath condition path = condition ++ (", ".toList ++ '"' :: (path ++ ['"'])) := by
    simp [CookieStore.writePath]
  rw [htext]
  simpa using hall

theorem lists_foldl_writeDomain {domains : List Str} (hdomains : ∀ d ∈ domains, '"' ∉ d) (h : Lists condition.1 items) :
    Lists (domains.foldl CookieStore.writeDomain condition).1 (items ++ domains.flatMap fun d => [d, '.' :: d]) := by
  induction domains generalizing condition items with
  | nil => simpa using h
  | cons d domains ih =>
    have hrest := ih (fun e he => hdomains e (mem_cons_of_mem d he)) (h.writeDomain (hdomains d mem_cons_self))
    simpa using hrest

theorem lists_foldl_writePath {paths : List Str} (hpaths : ∀ q ∈ paths, '"' ∉ q) {condition : Str}
    (h : Lists condition items) : Lists (paths.foldl writePath condition) (items ++ paths) := by
  induction paths generalizing condition items with
  | nil => simpa using h
  | cons q paths ih =>
    have hrest := ih (fun e he => hpaths e (mem_cons_of_mem q he)) (h.writePath (hpaths q mem_cons_self))
    simpa using hrest

def IsHostOrParent (host s : Str) : Prop := s = host ∨ (∃ before, host = before ++ '.' :: s) ∧ '.' ∈ s

def IsPathOrParent (path q : Str) : Prop := q = path ∨ (∃ after, path = q ++ '/' :: after) ∧ '/' ∈ q

theorem buildDomainConditions_spec {host : Str} (hhost : '"' ∉ host) :
    ∃ text, (∀ n, host.length < n → buildDomainConditions n host = some text) ∧
      ∀ x, x ∈ listed text ↔ ∃ s, IsHostOrParent host s ∧ (x = s ∨ x = '.' :: s) := by
  set domains := DoWhile.visited (DoWhile.afterFirst '.') (fun l => '.' ∈ l) (host.length + 1) host with hdomains
  have hmem : ∀ s, s ∈ domains ↔ IsHostOrParent host s := DoWhile.mem_visited_afterFirst (Nat.lt_succ_self _)
  have hquotes : ∀ s ∈ domains, '"' ∉ s := by
    intro s hs
    rcases (hmem s).mp hs with rfl | ⟨⟨before, rfl⟩, -⟩
    · exact hhost
    · exact fun h => hhost (by simp [h])
  refine ⟨(domains.foldl writeDomain ("domain in (".toList, false)).1 ++ ")".toList, ?_, ?_⟩
  · intro n hn
    obtain ⟨last, hrun⟩ := @DoWhile.run_emit _ _ (DoWhile.afterFirst '.') (fun l => '.' ∈ l) _
      DoWhile.length_lt_of_mem_afterFirst writeDomain n host hn ("domain in (".toList, false)
    rw [buildDomainConditions, hrun, DoWhile.visited_eq DoWhile.length_lt_of_mem_afterFirst hn (Nat.lt_succ_self _)]
    rfl
  · intro x
    rw [(lists_foldl_writeDomain hquotes (lists_gap (by decide))).listed_eq, nil_append]
    simp [hmem]

theorem buildPathConditions_spec (hpath : '"' ∉ path) :
    ∃ text, (∀ n, path.length < n → buildPathConditions n path = some text) ∧
      ∀ x, x ∈ listed text ↔ x = "/".toList ∨ IsPathOrParent (cutQuery path) x := by
  have hshort : (cutQuery path).length ≤ path.length := (takeWhile_sublist _).length_le
  set paths := DoWhile.visited (DoWhile.beforeLast '/') (fun l => '/' ∈ l) (path.length + 1) (cutQuery path) with hpaths
  have hmem : ∀ q, q ∈ paths ↔ IsPathOrParent (cutQuery path) q :=
    DoWhile.mem_visited_beforeLast (Nat.lt_succ_of_le hshort)
  have hcut : '"' ∉ cutQuery path := fun h => hpath (takeWhile_subset _ h)
  have hquotes : ∀ q ∈ paths, '"' ∉ q := by
    intro q hq
    rcases (hmem q).mp hq with rfl | ⟨⟨after, hafter⟩, -⟩
    · exact hcut
    · exact fun h => hcut (by rw [hafter]; simp [h])
  refine ⟨paths.foldl writePath "path in ( \"/\"".toList ++ ")".toList, ?_, ?_⟩
  · intro n hn
    have hn : (cutQuery path).length < n := Nat.lt_of_le_of_lt hshort hn
    obtain ⟨last, hrun⟩ := @DoWhile.run_emit _ _ (DoWhile.beforeLast '/') (fun l => '/' ∈ l) _
      DoWhile.length_lt_of_mem_beforeLast writePath n (cutQuery path) hn "path in ( \"/\"".toList
    rw [buildPathConditions, hrun, DoWhile.visited_eq DoWhile.length_lt_of_mem_beforeLast hn (Nat.lt_succ_of_le hshort)]
    rfl
  · intro x
    have hroot : Lists "path in ( \"/\"".toList ["/".toList] := fun _ => rfl
    rw [(lists_foldl_writePath hquotes hroot).listed_eq]
    simp [hmem]

/-- Both loops end, and the conditions list exactly the host and its parent domains, each also with a dot, and the root, the path and its parents. -/
theorem conditions_list_parents (host path : Str) (hhost : '"' ∉ host) (hpath : '"' ∉ path) :
    (∃ text, (∀ n, host.length < n → buildDomainConditions n host = some text) ∧
      ∀ x, x ∈ listed text ↔
        ∃ s, (s = host ∨ (∃ before, host = before ++ '.' :: s) ∧ '.' ∈ s) ∧ (x = s ∨ x = '.' :: s)) ∧
    ∃ text, (∀ n, path.length < n → buildPathConditions n path = some text) ∧
      ∀ x, x ∈ listed text ↔
        x = "/".toList ∨ x = cutQuery path ∨ (∃ after, cutQuery path = x ++ '/' :: after) ∧ '/' ∈ x :=
  ⟨buildDomainConditions_spec hhost, buildPathConditions_spec hpath⟩

theorem conditions_list_parents_qq :
    (∃ text, (∀ n, "w.qq.com".toList.length < n → buildDomainConditions n "w.qq.com".toList = some text) ∧
      ∀ x, x ∈ listed text ↔
        ∃ s, (s = "w.qq.com".toList ∨ (∃ before, "w.qq.com".toList = before ++ '.' :: s) ∧ '.' ∈ s) ∧
          (x = s ∨ x = '.' :: s)) ∧
    ∃ text, (∀ n, "/a/b?q".toList.length < n → buildPathConditions n "/a/b?q".toList = some text) ∧
      ∀ x, x ∈ listed text ↔
        x = "/".toList ∨ x = cutQuery "/a/b?q".toList ∨
          (∃ after, cutQuery "/a/b?q".toList = x ++ '/' :: after) ∧ '/' ∈ x :=
  conditions_list_parents "w.qq.com".toList "/a/b?q".toList (by decide) (by decide)

end Avbot.CookieStore
