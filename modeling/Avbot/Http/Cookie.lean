import Avbot.Base.StringAlgo
import Avbot.Lib.Scanner
import Avbot.Http.Parsers
import Mathlib.Data.List.Sort

/-!
# The cookie jar

`avhttp::cookies`: the parser for `Set-Cookie`, the sum of two jars, and `get_cookie_line`, which makes the text for a request. A date is a number of seconds, or nothing for `not_a_date_time`, which is neither before nor after any date.
-/

namespace Avbot.Http

open List Scanner
open Str (toLower trim)

def ptimeLt : Option Int → Option Int → Bool
  | some a, some b => a < b
  | _, _ => false

structure Cookie where
  name : Str
  value : Str
  domain : Str
  path : Str
  expires : Option Int
  httponly : Bool
  secure : Bool
  deriving DecidableEq, Repr

structure Cookies where
  cookies : List Cookie
  mDefaultDomain : Str
  deriving DecidableEq

/-- What the jar takes from other libraries. The order in which `std::sort` leaves cookies with and without a date is not specified. -/
structure CookieLib where
  sort : List Cookie → List Cookie
  sort_perm : ∀ l, (sort l).Perm l
  parseHttpDate : Str → Option Int
  samePath : Str → Str → Bool

inductive CookieState where
  | cookieNameStart
  | cookieName
  | cookieValueStart
  | cookieValue
  deriving DecidableEq

/-- The local variables of `parse_cookie_string`. The map `tmp` is kept in the order of its keys. -/
structure CookieParse where
  state : CookieState
  name : Str
  value : Str
  tmp : List (Str × Str)
  httponly : Bool
  secure : Bool

def assign (key val : Str) : List (Str × Str) → List (Str × Str)
  | [] => [(key, val)]
  | o :: tmp =>
    if key = o.1 then (key, val) :: tmp
    else if List.lex key o.1 (fun a b => a.toNat < b.toNat) then (key, val) :: o :: tmp
    else o :: assign key val tmp

namespace CookieParse

def setFlag (p : CookieParse) : Option CookieParse :=
  if toLower p.name = "secure".toList then some { p with secure := true }
  else if toLower p.name = "httponly".toList then some { p with httponly := true }
  else none

def store (p : CookieParse) : CookieParse :=
  { p with tmp := assign p.name p.value p.tmp, name := [], value := [], state := .cookieNameStart }

def step (p : CookieParse) (c : Char) : Outcome CookieParse Empty :=
  match p.state with
  | .cookieNameStart =>
    if c = ' ' then .next p
    else if isChar c then .next { p with name := p.name ++ [c], state := .cookieName }
    else .fail
  | .cookieName =>
    if c = ';' then
      match p.setFlag with
      | some p => .next { p with name := [], state := .cookieNameStart }
      | none => .fail
    else if c = '=' then .next { p with value := [], state := .cookieValueStart }
    else if isTspecial c ∨ c = ':' then .next { p with name := [], state := .cookieNameStart }
    else if isChar c then .next { p with name := p.name ++ [c] }
    else .next p
  | .cookieValueStart =>
    if c = ';' then .next p.store
    else if c = '"' ∨ c = '\'' then .next p
    else if isChar c then .next { p with value := p.value ++ [c], state := .cookieValue }
    else .fail
  | .cookieValue =>
    if c = ';' ∨ c = '"' ∨ c = '\'' then .next p.store
    else if isChar c then .next { p with value := p.value ++ [c] }
    else .fail

def finish (p : CookieParse) : CookieParse :=
  if p.state = .cookieName ∧ p.name ≠ [] then p.setFlag.getD p
  else if p.state = .cookieValue ∧ p.value ≠ [] then p.store
  else p

end CookieParse

def isAttribute (name : Str) : Bool :=
  toLower name ∈ ["expires".toList, "domain".toList, "path".toList]

namespace CookieLib

variable (lib : CookieLib)

/-- One turn of the loop over the attributes. A date that cannot be read leaves `expires` as it is. -/
def applyAttribute (defaultDomain : Str) (cookie : Cookie) (o : Str × Str) : Cookie :=
  if toLower o.1 = "expires".toList then
    match lib.parseHttpDate o.2 with
    | some t => { cookie with expires := some t }
    | none => cookie
  else if toLower o.1 = "domain".toList then
    { cookie with domain := if o.2 = [] ∧ defaultDomain ≠ [] then defaultDomain else o.2 }
  else if toLower o.1 = "path".toList then { cookie with path := o.2 }
  else cookie

def parseCookieString (defaultDomain str : Str) : Option (List Cookie) :=
  (runs CookieParse.step ⟨.cookieNameStart, [], [], [], false, false⟩ str).map fun p =>
    let p := p.finish
    let cookieTmp := p.tmp.foldl (lib.applyAttribute defaultDomain) ⟨[], [], [], [], none, p.httponly, p.secure⟩
    (p.tmp.filter fun o => !isAttribute o.1).map fun o => { cookieTmp with name := o.1, value := o.2 }

def update (jar : Cookies) (str : Str) : Cookies :=
  { jar with cookies := jar.cookies ++ (lib.parseCookieString jar.mDefaultDomain str).getD [] }

end CookieLib

namespace Cookie

def findName (name : Str) (container : List Cookie) : Option Cookie := container.find? fun c => c.name = name

def sameKey (a b : Cookie) : Bool := a.name = b.name ∧ a.domain = b.domain ∧ a.path = b.path

/-- `detail::cookie_megerable`. The cookie it compares with is the first one of the name, whatever its domain and path. -/
def megerable (element : Cookie) (container : List Cookie) : Bool :=
  if !container.any element.sameKey then true
  else if element.value = [] then false
  else
    match findName element.name container with
    | none => true
    | some it =>
      -- `element.expires <= it->expires` is the negation of `it->expires < element.expires`
      if it.value = [] then true else ptimeLt it.expires element.expires

def mergeInto (ret : List Cookie) : List Cookie → List Cookie
  | [] => ret
  | e :: tmp => if e.megerable ret then mergeInto (ret ++ [e]) tmp else mergeInto ret tmp

theorem mem_of_mem_mergeInto {c : Cookie} {ret tmp : List Cookie} (hc : c ∈ mergeInto ret tmp) : c ∈ ret ∨ c ∈ tmp := by
  induction tmp generalizing ret with
  | nil => exact .inl hc
  | cons e tmp ih =>
    rw [mergeInto] at hc
    split at hc
    · rcases ih hc with hret | htmp
      · rcases mem_append.mp hret with hret | he
        · exact .inl hret
        · exact .inr (mem_cons.mpr (.inl (mem_singleton.mp he)))
      · exact .inr (mem_cons_of_mem e htmp)
    · rcases ih hc with hret | htmp
      · exact .inl hret
      · exact .inr (mem_cons_of_mem e htmp)

end Cookie

namespace CookieLib

variable (lib : CookieLib)

def add (lhs rhs : Cookies) : Cookies := ⟨Cookie.mergeInto [] (lib.sort (lhs.cookies ++ rhs.cookies)), []⟩

theorem mem_of_mem_add {lhs rhs : Cookies} {c : Cookie} (hc : c ∈ (lib.add lhs rhs).cookies) :
    c ∈ lhs.cookies ∨ c ∈ rhs.cookies := by
  rcases Cookie.mem_of_mem_mergeInto hc with hnil | hsorted
  · exact absurd hnil not_mem_nil
  · rw [(lib.sort_perm _).mem_iff, mem_append] at hsorted
    exact hsorted

def pathMatches (path : Str) (c : Cookie) : Bool :=
  let path := trim path
  path = [] ∨ lib.samePath path (trim c.path)

end CookieLib

namespace Cookie

/-- The test for the argument `domain`. A cookie for all hosts of a domain is compared without the dots at its front. -/
def domainMatches (domain : Str) (c : Cookie) : Bool :=
  let domain := trim domain
  let cookieDomain := trim c.domain
  if domain = [] ∨ cookieDomain = [] then true
  else if cookieDomain.head? = some '.' then toLower (cookieDomain.dropWhile (· = '.')) <:+ toLower domain
  else cookieDomain = domain

def expired (now : Int) (c : Cookie) : Bool := ptimeLt c.expires (some now)

def live (https : Bool) (now : Int) (c : Cookie) : Bool := c.value ≠ [] ∧ (c.secure → https) ∧ !c.expired now

def appendTo (cookie : Str) (c : Cookie) : Str :=
  (if cookie = [] then [] else cookie ++ "; ".toList) ++ (c.name ++ ['='] ++ c.value)

def line (cookies : List Cookie) : Str := cookies.foldl appendTo []

end Cookie

namespace CookieLib

variable (lib : CookieLib)

def selected (jar : Cookies) (https : Bool) (now : Int) (domain path : Str) : List Cookie :=
  (lib.add ⟨[], []⟩ jar).cookies.filter fun c => c.live https now && lib.pathMatches path c && c.domainMatches domain

def getCookieLine (jar : Cookies) (https : Bool) (now : Int) (domain path : Str) : Str :=
  Cookie.line (lib.selected jar https now domain path)

theorem of_mem_selected {jar : Cookies} {https : Bool} {now : Int} {domain path : Str} {c : Cookie}
    (hc : c ∈ lib.selected jar https now domain path) :
    c ∈ jar.cookies ∧ c.live https now ∧ lib.pathMatches path c ∧ c.domainMatches domain := by
  rw [selected, mem_filter] at hc
  obtain ⟨hmem, htests⟩ := hc
  rw [Bool.and_eq_true, Bool.and_eq_true] at htests
  rcases lib.mem_of_mem_add hmem with hnil | hjar
  · exact absurd hnil not_mem_nil
  · exact ⟨hjar, htests.1.1, htests.1.2, htests.2⟩

def byInsertion (parseHttpDate : Str → Option Int) (samePath : Str → Str → Bool) : CookieLib where
  sort := List.insertionSort fun a b => ptimeLt a.expires b.expires = false
  sort_perm := perm_insertionSort _
  parseHttpDate := parseHttpDate
  samePath := samePath

end CookieLib

end Avbot.Http
