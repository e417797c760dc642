import Avbot.Base.StringAlgo

/-!
# URLs

`avhttp::url`. The text is cut from left to right at the first character of a set, as `strcspn` finds it. Only the protocol, the brackets of an IPv6 host and the port can be wrong.
-/

namespace Avbot.Http

structure Url where
  protocol : Str
  userInfo : Str
  host : Str
  port : Str
  path : Str
  query : Str
  fragment : Str
  ipv6Host : Bool
  deriving DecidableEq, Repr

namespace Url

def empty : Url := ⟨[], [], [], [], [], [], [], false⟩

def cutAt (set s : Str) : Str × Str := (s.takeWhile (· ∉ set), s.dropWhile (· ∉ set))

def cutUserInfo (s : Str) : Str × Str :=
  match cutAt "@:[/?#".toList s with
  | (userInfo, '@' :: s) => (userInfo, s)
  | (user, ':' :: rest) =>
    -- the colon of `user:password@`, or the one before a port
    match cutAt "@/?#".toList (':' :: rest) with
    | (password, '@' :: s) => (user ++ password, s)
    | _ => ([], s)
  | _ => ([], s)

def cutHost (s : Str) : Option (Str × Bool × Str) :=
  match s with
  | '[' :: s =>
    match cutAt "]".toList s with
    | (host, ']' :: s) => if (cutAt ":/?#".toList s).1 = [] then some (host, true, s) else none
    | _ => none
  | s =>
    let (host, s) := cutAt ":/?#".toList s
    some (host, false, s)

def cutPort (s : Str) : Option (Str × Str) :=
  match s with
  | ':' :: s =>
    let (port, s) := cutAt "/?#".toList s
    if port = [] ∨ !port.all Char.isDigit then none else some (port, s)
  | s => some ([], s)

def cutPath (s : Str) : Str × Str :=
  match s with
  | '/' :: _ => cutAt "?#".toList s
  | s => (['/'], s)

def cutQuery (s : Str) : Str × Str :=
  match s with
  | '?' :: s => cutAt ['#'] s
  | s => ([], s)

def cutFragment (s : Str) : Str :=
  match s with
  | '#' :: s => s
  | _ => []

/-- `url::from_string`. Without an answer the error is `invalid_argument`, which the constructors throw. -/
def fromString (s : Str) : Option Url :=
  match cutAt [':'] (Str.cStr s) with
  | (protocol, ':' :: '/' :: '/' :: s) => do
    let (userInfo, s) := cutUserInfo s
    let (host, ipv6Host, s) ← cutHost s
    let (port, s) ← cutPort s
    let (path, s) := cutPath s
    let (query, s) := cutQuery s
    return ⟨Str.toLower protocol, userInfo, host, port, path, query, cutFragment s, ipv6Host⟩
  | _ => none

structure Components where
  protocol : Bool := false
  userInfo : Bool := false
  host : Bool := false
  port : Bool := false
  path : Bool := false
  query : Bool := false
  fragment : Bool := false

def Components.all : Components := ⟨true, true, true, true, true, true, true⟩

def toString (u : Url) (components : Components) : Str :=
  (if components.protocol ∧ u.protocol ≠ [] then u.protocol ++ "://".toList else []) ++
  (if components.userInfo ∧ u.userInfo ≠ [] then u.userInfo ++ ['@'] else []) ++
  (if components.host then if u.ipv6Host then ['['] ++ u.host ++ [']'] else u.host else []) ++
  (if components.port ∧ u.port ≠ [] then ':' :: u.port else []) ++
  (if components.path then u.path else []) ++
  (if components.query ∧ u.query ≠ [] then '?' :: u.query else []) ++
  (if components.fragment ∧ u.fragment ≠ [] then '#' :: u.fragment else [])

example : fromString "HTTP://me:pw@a.com:8080/x?q#f".toList =
    some ⟨"http".toList, "me:pw".toList, "a.com".toList, "8080".toList, "/x".toList, ['q'], ['f'], false⟩ := by decide

end Url

end Avbot.Http
