import Avbot.Base.Text
import Avbot.Lib.PropertyTree

/-!
# Property trees of strings

`boost::property_tree::ptree`, which holds both the bot's messages and the server's JSON, and the typed reads that throw on a missing path or on a value that does not convert. In a tree read from JSON the elements of an array are children with the empty name.
-/

namespace Avbot

abbrev Ptree := PropertyTree String Str

namespace Str

/-- `iss >> value; iss >> std::ws` for an `int`, which has to consume the whole text. -/
def parseInt (s : Str) : Option Int :=
  let s := s.dropWhile isSpace
  let (negative, s) := match s with
    | '-' :: s => (true, s)
    | '+' :: s => (false, s)
    | s => (false, s)
  let digits := s.takeWhile Char.isDigit
  let magnitude : Int := digits.foldl (fun n c => 10 * n + (c.toNat - '0'.toNat)) 0
  let value := if negative then -magnitude else magnitude
  if digits ≠ [] ∧ -2147483648 ≤ value ∧ value < 2147483648 ∧ (s.dropWhile Char.isDigit).all isSpace then
    some value
  else none

/-- `boost::lexical_cast<int>`, which allows no blanks. -/
def lexicalCast (s : Str) : Except Exn Int :=
  match if s.any isSpace then none else parseInt s with
  | some value => .ok value
  | none => .error .badLexicalCast

example : parseInt " -12 ".toList = some (-12) ∧ parseInt "12a".toList = none ∧
    parseInt "2147483648".toList = none := by decide

end Str

def getString (tree : Ptree) (path : List String) : Except Exn Str :=
  match tree.get? path with
  | some text => .ok text
  | none => .error .ptreeBadPath

def getInt (tree : Ptree) (path : List String) : Except Exn Int :=
  match tree.get? path with
  | none => .error .ptreeBadPath
  | some text =>
    match Str.parseInt text with
    | some value => .ok value
    | none => .error .ptreeBadData

/-- The completion of one `avhttp::async_read_body`: the error, the body, and what `read_json` makes of the body, if it does not throw. -/
structure HttpAnswer where
  ec : ErrorCode
  body : Str
  json : Option Ptree

end Avbot
