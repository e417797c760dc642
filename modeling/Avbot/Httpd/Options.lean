import Avbot.Base.StringAlgo

/-!
# The options of requests and responses

`avhttpd::option`, a list of names and values in the order in which they were inserted. Looking up a name ignores its case and takes the first entry; removing a name does not ignore it. Names that start with an underscore never become header lines.
-/

namespace Avbot.Httpd

namespace HttpOptions

def requestMethod : Str := "_request_method".toList
def requestUri : Str := "_request_uri".toList
def httpVersion : Str := "_http_version".toList
def host : Str := "Host".toList
def contentType : Str := "Content-Type".toList
def contentLength : Str := "Content-Length".toList
def connection : Str := "Connection".toList

end HttpOptions

abbrev Options := List (Str × Str)

namespace Options

def insert (opts : Options) (key val : Str) : Options := opts ++ [(key, val)]

def remove : Options → Str → Options
  | [], _ => []
  | o :: opts, key => if o.1 = key then opts else o :: remove opts key

def find? (opts : Options) (key : Str) : Option Str :=
  (List.find? (fun o => Str.toLower o.1 = Str.toLower key) opts).map Prod.snd

def find (opts : Options) (key : Str) : Str := (opts.find? key).getD []

def headerLine (o : Str × Str) : Str :=
  match o.1 with
  | [] => []
  | c :: _ => if c ≠ '_' then o.1 ++ ": ".toList ++ o.2 ++ Str.crlf else []

def headerString (opts : Options) : Str := opts.flatMap headerLine

variable {o : Str × Str} {opts : Options} {key : Str}

theorem find?_cons_of_eq (hkey : Str.toLower o.1 = Str.toLower key) : find? (o :: opts) key = some o.2 := by
  simp [find?, hkey]

theorem find?_cons_of_ne (hkey : Str.toLower o.1 ≠ Str.toLower key) : find? (o :: opts) key = find? opts key := by
  simp [find?, hkey]

end Options

end Avbot.Httpd
