import Avbot.Http.Cookie
import Avbot.Lib.EventMachine
import Mathlib.Data.List.Nodup

/-!
# The table of cookies

`cookie_store` keeps the cookies of the account in a table of sqlite without a key: every save deletes the rows of the key first. A placeholder that occurs again in a statement keeps the position of its first occurrence. The statement of `drop_session` is a text into which the domain is pasted, which sqlite may refuse or take for another condition on rows.
-/

namespace Avbot

open List

namespace CookieStore

open Http (Cookie Cookies ptimeLt)

inductive Column where
  | domain
  | path
  | name
  | value
  | expiration
  deriving DecidableEq

structure Row where
  domain : Str
  path : Str
  name : Str
  value : Str
  expiration : Str
  deriving DecidableEq

abbrev Table := List Row

namespace Row

def get (r : Row) : Column → Str
  | .domain => r.domain
  | .path => r.path
  | .name => r.name
  | .value => r.value
  | .expiration => r.expiration

def key (r : Row) : Str × Str × Str := (r.domain, r.path, r.name)

end Row

def bound (placeholders : List String) (params : List Str) (placeholder : String) : Str :=
  params.getD (placeholders.idxOf placeholder) []

def deleteWhere (conditions : List (Column × String)) (params : List Str) (t : Table) : Table :=
  t.filter fun r => !conditions.all fun c => r.get c.1 = bound (conditions.map Prod.snd) params c.2

def columnValue (values : List (Column × String)) (params : List Str) (c : Column) (default : Str) : Str :=
  match values.find? fun v => v.1 = c with
  | some v => bound (values.map Prod.snd) params v.2
  | none => default

def insertInto (values : List (Column × String)) (params : List Str) (t : Table) : Table :=
  t ++ [{
    domain := columnValue values params .domain []
    path := columnValue values params .path "/".toList
    name := columnValue values params .name []
    value := columnValue values params .value []
    expiration := columnValue values params .expiration "session".toList }]

def deleteCookie (domain path name : Str) (t : Table) : Table :=
  deleteWhere [(.domain, ":domain"), (.path, ":path"), (.name, ":name")] [domain, path, name] t

def saveCookie (domain path name value expiration : Str) (t : Table) : Table :=
  let t := deleteWhere [(.domain, ":domain"), (.path, ":path"), (.name, ":name")] [domain, path, name] t
  insertInto [(.domain, ":name"), (.path, ":value"), (.name, ":domain"), (.value, ":path"), (.expiration, ":expiration")]
    [domain, path, name, value, expiration] t

/-- `like` of sqlite: `%` stands for any text, `_` for one character, and letters match in either case. -/
def like : Str → Str → Bool
  | [], text => text.isEmpty
  | c :: pattern, text =>
    if c = '%' then text.tails.any (like pattern)
    else
      match text with
      | [] => false
      | d :: text => (c = '_' || c.toLower = d.toLower) && like pattern text

structure StoreLib where
  /-- The rows chosen by the statement of `drop_session` for a domain with a quote, if sqlite accepts it. -/
  injected : Str → Table → Option (Row → Bool)
  dateString : Int → Str
  now : Int

namespace StoreLib

variable (lib : StoreLib)

/-- The rows that `drop_session` deletes. A text that sqlite refuses makes SOCI throw, and nothing is deleted. -/
def dropped (domain : Str) (t : Table) (r : Row) : Bool :=
  if '"' ∈ domain then ((lib.injected domain t).getD fun _ => false) r
  else r.expiration = "session".toList && like ('%' :: domain) r.domain

def dropSession (domain : Str) (t : Table) : Table := t.filter fun r => !lib.dropped domain t r

def toStr : Option Int → Str
  | none => "session".toList
  | some d => lib.dateString d

structure Saving where
  table : Table
  inserted : List (Str × Str × Str)

def shallDelete (cookie : Cookie) : Bool :=
  let shallDelete := cookie.value.isEmpty
  if !shallDelete && cookie.expires.isNone then ptimeLt cookie.expires (some lib.now) else shallDelete

def saveStep (domain : Str) (s : Saving) (cookie : Cookie) : Saving :=
  let cookieDomain := if cookie.domain.isEmpty then domain else cookie.domain
  let cookiePath := if cookie.path.isEmpty then "/".toList else cookie.path
  if lib.shallDelete cookie then
    if (cookieDomain, cookiePath, cookie.name) ∈ s.inserted then s
    else { s with table := deleteCookie cookieDomain cookiePath cookie.name s.table }
  else
    { table := saveCookie cookieDomain cookiePath cookie.name cookie.value (lib.toStr cookie.expires) s.table
      inserted := s.inserted ++ [(cookieDomain, cookiePath, cookie.name)] }

def saveCookies (cookies : Cookies) (domain : Str) (t : Table) : Table :=
  (cookies.cookies.foldl (lib.saveStep domain) ⟨t, []⟩).table

end StoreLib

inductive Call where
  | saveCookie (domain path name value expiration : Str)
  | saveCookies (cookies : Cookies) (domain : Str)
  | deleteCookie (domain path name : Str)
  | dropSession (domain : Str)

def step (lib : StoreLib) (t : Table) : Call → Option Table
  | .saveCookie domain path name value expiration => some (saveCookie domain path name value expiration t)
  | .saveCookies cookies domain => some (lib.saveCookies cookies domain t)
  | .deleteCookie domain path name => some (deleteCookie domain path name t)
  | .dropSession domain => some (lib.dropSession domain t)

theorem deleteCookie_eq (domain path name : Str) (t : Table) :
    deleteCookie domain path name t = t.filter fun r => r.key ≠ (domain, path, name) := by
  unfold deleteCookie deleteWhere
  congr 1
  funext r
  simp [bound, Row.get, Row.key, List.idxOf, findIdx_cons]

theorem saveCookie_eq (domain path name value expiration : Str) (t : Table) :
    saveCookie domain path name value expiration t =
      (t.filter fun r => r.key ≠ (domain, path, name)) ++ [⟨domain, path, name, value, expiration⟩] := by
  have hdelete := deleteCookie_eq domain path name t
  unfold deleteCookie at hdelete
  unfold saveCookie
  rw [hdelete]
  rfl

def UniqueKeys (t : Table) : Prop := (t.map Row.key).Nodup

theorem uniqueKeys_nil : UniqueKeys [] := nodup_nil

variable {t : Table}

theorem UniqueKeys.filter (h : UniqueKeys t) (p : Row → Bool) : UniqueKeys (t.filter p) :=
  List.Nodup.sublist (filter_sublist.map Row.key) h

theorem UniqueKeys.deleteCookie (h : UniqueKeys t) (domain path name : Str) :
    UniqueKeys (deleteCookie domain path name t) := by
  rw [deleteCookie_eq]
  exact h.filter _

theorem UniqueKeys.saveCookie (h : UniqueKeys t) (domain path name value expiration : Str) :
    UniqueKeys (saveCookie domain path name value expiration t) := by
  rw [saveCookie_eq, UniqueKeys, map_append, map_singleton, ← concat_eq_append, nodup_concat]
  refine ⟨?_, h.filter _⟩
  intro hmem
  obtain ⟨r, hr, hkey⟩ := mem_map.mp hmem
  have hother := (mem_filter.mp hr).2
  exact absurd hkey (of_decide_eq_true hother)

theorem UniqueKeys.saveStep {lib : StoreLib} {s : StoreLib.Saving} (h : UniqueKeys s.table) (domain : Str) (cookie : Cookie) :
    UniqueKeys (lib.saveStep domain s cookie).table := by
  unfold StoreLib.saveStep
  generalize (if cookie.domain.isEmpty then domain else cookie.domain) = cookieDomain
  generalize (if cookie.path.isEmpty then "/".toList else cookie.path) = cookiePath
  dsimp only
  split
  · split
    · exact h
    · exact h.deleteCookie _ _ _
  · exact h.saveCookie _ _ _ _ _

theorem UniqueKeys.saveCookies (h : UniqueKeys t) (lib : StoreLib) (cookies : Cookies) (domain : Str) :
    UniqueKeys (lib.saveCookies cookies domain t) := by
  unfold StoreLib.saveCookies
  generalize hstart : (⟨t, []⟩ : StoreLib.Saving) = s
  have hs : UniqueKeys s.table := hstart ▸ h
  clear hstart h
  induction cookies.cookies generalizing s with
  | nil => exact hs
  | cons cookie rest ih => exact ih _ (hs.saveStep domain cookie)

theorem UniqueKeys.step {lib : StoreLib} {t' : Table} {c : Call} (h : UniqueKeys t)
    (hstep : step lib t c = some t') : UniqueKeys t' := by
  cases c with
  | saveCookie domain path name value expiration =>
    obtain rfl := Option.some.inj hstep
    exact h.saveCookie domain path name value expiration
  | saveCookies cookies domain =>
    obtain rfl := Option.some.inj hstep
    exact h.saveCookies lib cookies domain
  | deleteCookie domain path name =>
    obtain rfl := Option.some.inj hstep
    exact h.deleteCookie domain path name
  | dropSession domain =>
    obtain rfl := Option.some.inj hstep
    exact h.filter _

theorem run_isSome (lib : StoreLib) (t : Table) (calls : List Call) :
    ∃ t', EventMachine.run (step lib) t calls = some t' := by
  induction calls generalizing t with
  | nil => exact ⟨t, rfl⟩
  | cons c calls ih =>
    cases c with
    | saveCookie | saveCookies | deleteCookie | dropSession => exact ih _

/-- There is at most one row for a domain, path and name, and a save puts its row there and leaves the rows of all other keys as they are. -/
theorem saveCookie_after_run (lib : StoreLib) (calls : List Call) :
    ∃ t, EventMachine.run (step lib) [] calls = some t ∧ (t.map Row.key).Nodup ∧
      ∀ domain path name value expiration,
        (saveCookie domain path name value expiration t).filter (fun r => r.key = (domain, path, name)) =
            [⟨domain, path, name, value, expiration⟩] ∧
          (saveCookie domain path name value expiration t).filter (fun r => r.key ≠ (domain, path, name)) =
            t.filter fun r => r.key ≠ (domain, path, name) := by
  obtain ⟨t, hrun⟩ := run_isSome lib [] calls
  have hunique : UniqueKeys t :=
    EventMachine.invariant_of_run (fun _ _ _ h hstep => UniqueKeys.step h hstep) uniqueKeys_nil hrun
  refine ⟨t, hrun, hunique, ?_⟩
  intro domain path name value expiration
  rw [saveCookie_eq]
  constructor
  · simp [Row.key, filter_append, filter_filter]
  · simp [Row.key, filter_append, filter_filter]

end CookieStore

end Avbot
