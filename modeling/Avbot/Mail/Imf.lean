import Avbot.Mail.Base64
import Avbot.Lib.Pattern

/-!
# `internet_mail_format.hpp`

A mail is written as its header fields, folded where a line would grow too long, and its body in base 64. It is read line by line: a line that starts with a blank continues the one before it, and the first empty line ends the header.

The loop of the decoder and the recursion of the readers take the number of rounds they may use. A stream that is only read with `std::getline` is the list of its lines. The readers have `process_line` as a parameter; `imfReadStream` is the one with the `process_line` of the file.
-/

namespace Avbot

open Pattern

namespace Str

def lines (s : Str) : List Str := s.splitOn '\n'

end Str

/-- `InternetMailFormat`. The entries of the unordered map stand in the order in which it is iterated. -/
structure Imf where
  header : List (Str × Str)
  haveMultipart : Bool
  body : Str ⊕ List Imf

namespace Imf

def insert (header : List (Str × Str)) (entry : Str × Str) : List (Str × Str) :=
  if (header.lookup entry.1).isSome then header else header ++ [entry]

def subscript (header : List (Str × Str)) (name : Str) : Str × List (Str × Str) :=
  ((header.lookup name).getD [], insert header (name, []))

def mailAddressSplit (line : Str) : List Str := line.splitOnP (· ∈ ";,".toList)

/-- The position that `find_last_of("\r\n")` finds. -/
def lastNewline (out : Str) : Option Nat :=
  if out.any (· ∈ "\r\n".toList) then
    some (out.length - 1 - out.reverse.findIdx (· ∈ "\r\n".toList))
  else none

/-- The length `xpos + add.length()` that `checked_newline_append` compares with 78, in `size_t`. -/
def lineLength (out add : Str) : Nat :=
  match lastNewline out with
  -- `npos + 2` is 1
  | none => if out = [] then (Str.sizeLimit - 1 + add.length) % Str.sizeLimit else out.length - 1 + add.length
  | some 0 => out.length + add.length
  | some (pos + 1) =>
    if out.length < pos + 3 then (Str.sizeLimit - 1 + add.length) % Str.sizeLimit else out.length - (pos + 3) + add.length

def checkedNewlineAppend (out add : Str) : Str :=
  if 78 ≤ lineLength out add then out ++ "\r\n\t".toList ++ add else out ++ add

def imfBase64inlineEncode (str : Str) : Except ImfExn Str :=
  (Boost.base64Encode str).map fun encoded => "=?utf8?B?".toList ++ encoded ++ "?=".toList

/-- The expression `["]?([^\s"]*)?"?\s*(<.*@.*?>)`. -/
def mailaddrRegex : Regex Char :=
  ⟨[.opt (· == '"'), .many (fun c => ! Str.isSpace c && c != '"'), .opt (· == '"'), .many Str.isSpace,
    .one (· == '<'), .many (fun _ => true), .one (· == '@'), .fewest (fun _ => true), .one (· == '>')],
   [(1, 1), (4, 5)]⟩

def mailaddrText (mail : Str) : Except ImfExn Str :=
  match mailaddrRegex.search (Str.cStr mail) with
  | some what =>
    (imfBase64inlineEncode (what.getD 1 [])).map fun name =>
      "\"".toList ++ name ++ "\" ".toList ++ Str.trim (what.getD 2 []) ++ "; ".toList
  | none => .ok (mail ++ "; ".toList)

def imfMailaddrBase64inlineEncode (outAddressline str : Str) : Except ImfExn Str :=
  (mailAddressSplit str).foldlM (fun out mail => (mailaddrText mail).map (checkedNewlineAppend out)) outAddressline

def writeHeader (headerdata : Str) (hl : Str × Str) : Except ImfExn Str :=
  let headerdata := headerdata ++ hl.1 ++ ": ".toList
  let appended :=
    if hl.1 = "from".toList ∨ hl.1 = "to".toList then imfMailaddrBase64inlineEncode headerdata hl.2
    else if hl.1 = "subject".toList then (imfBase64inlineEncode hl.2).map (checkedNewlineAppend headerdata)
    else .ok (checkedNewlineAppend headerdata hl.2)
  appended.map (· ++ Str.crlf)

def imfWriteStream (imf : Imf) : Except ImfExn Str :=
  if imf.haveMultipart then .error .assertion
  else do
    let headerdata ← imf.header.foldlM writeHeader []
    match imf.body with
    | .inl body =>
      return headerdata ++ "content-transfer-encoding: base64\r\n\r\n".toList ++ (← Boost.base64EncodeLines 78 body)
    | .inr _ => .error .badGet

/-- The expression `=\?([^?])?\?=`, which `imf_base64inline_decode` starts with. -/
def encodedRegex : Regex Char :=
  ⟨[.one (· == '='), .one (· == '?'), .opt (· != '?'), .one (· == '?'), .one (· == '=')], [(2, 1)]⟩

/-- The expression `(.*)\?([^?])\?(.*)`, which it goes on with. -/
def wordRegex : Regex Char :=
  ⟨[.many (fun _ => true), .one (· == '?'), .one (· != '?'), .one (· == '?'), .many (fun _ => true)],
   [(0, 1), (2, 1), (4, 1)]⟩

/-- The loop of `imf_base64inline_decode`. After its first round `ex` is always the second expression. -/
def decodeLoop : Nat → Regex Char → Str → Option (Except ImfExn Str)
  | 0, _, _ => none
  | n + 1, ex, str =>
    match ex.search (Str.cStr str) with
    | none => some (.ok str)
    | some what =>
      match wordRegex.search (Str.cStr (what.getD 1 [])) with
      -- `what2` points into the string that `what[1].str()` made, which is gone when `what2[1]` is read
      | some _ => some (.error .undefined)
      | none => decodeLoop n wordRegex (Str.replaceAll str (what.getD 0 []) "decodeerror".toList)

def imfBase64inlineDecode (n : Nat) (str : Str) : Option (Except ImfExn Str) := decodeLoop n encodedRegex str

/-- The expression `([^:]*)?:[ \t]+(.*)?`. -/
def headerRegex : Regex Char :=
  ⟨[.many (· != ':'), .one (· == ':'), .some (· ∈ " \t".toList), .many (fun _ => true)], [(0, 1), (3, 1)]⟩

def processLine (n : Nat) (line : Str) : Option (Except ImfExn (Str × Str)) :=
  match headerRegex.full (Str.cStr line) with
  | some what =>
    (imfBase64inlineDecode n (what.getD 2 [])).map fun r => r.map fun val => (Str.toLower (what.getD 1 []), val)
  | none => some (.error .badExpression)

section Read

variable (process : Str → Option (Except ImfExn (Str × Str)))

/-- The loop of `imf_read_stream` on the lines after the first, up to the body, if there is one. -/
def readLoop : List (Str × Str) → Str → List Str → Option (Except ImfExn (List (Str × Str) × Option Str))
  | header, _, [] => some (.ok (header, none))
  | header, preLine, line :: rest =>
    let line := Str.trimRight line
    if line.head?.any Str.isSpace then readLoop header (preLine ++ Str.trimLeft line) rest
    else if preLine ≠ [] then
      match process preLine with
      | none => none
      | some (.ok entry) => readLoop (insert header entry) line rest
      | some (.error .badExpression) => readLoop header line rest
      | some (.error e) => some (.error e)
    else if line ≠ [] then some (.ok (header, some (line ++ Str.crlf ++ rest.flatMap (· ++ ['\n']))))
    else readLoop header line rest

end Read

/-- The expression `multipart/.*;.*?boundary="(.*)?"`. -/
def multipartRegex : Regex Char :=
  ⟨lit "multipart/".toList ++ [.many (fun _ => true), .one (· == ';'), .fewest (fun _ => true)] ++
    lit "boundary=\"".toList ++ [.many (fun _ => true), .one (· == '"')], [(23, 1)]⟩

/-- A line that ends a part. -/
def IsDelimiter (boundary line : Str) : Prop :=
  Str.trim line = "--".toList ++ boundary ∨ Str.trim line = "--".toList ++ boundary ++ "--".toList

instance (boundary line : Str) : Decidable (IsDelimiter boundary line) := inferInstanceAs (Decidable (_ ∨ _))

section Parts

variable (read : Str → Option (Except ImfExn Imf))

/-- The inner loop of `mime_read_stream`. -/
def partLoop (boundary : Str) : List Imf → Str → List Str → Option (Except ImfExn (List Imf))
  | mimecontent, _, [] => some (.ok mimecontent)
  | mimecontent, part, line :: rest =>
    if IsDelimiter boundary line then
      match read part with
      | some (.ok imf) => partLoop boundary (mimecontent ++ [imf]) [] rest
      | some (.error e) => some (.error e)
      | none => none
    else partLoop boundary mimecontent (part ++ (line ++ ['\n'])) rest

def mimeLoop (boundary : Str) (mimecontent : List Imf) : List Str → Option (Except ImfExn (List Imf))
  | [] => some (.ok mimecontent)
  | line :: rest =>
    if Str.trim line = "--".toList ++ boundary then partLoop read boundary mimecontent [] rest
    else mimeLoop boundary mimecontent rest

def mimeReadStream (mimecontent : List Imf) (text boundary : Str) : Option (Except ImfExn (List Imf)) :=
  mimeLoop read boundary mimecontent (Str.lines text)

def imfDecodeMultipart (header : List (Str × Str)) (body : Str) : Option (Except ImfExn Imf) :=
  let (contentType, header) := subscript header "content-type".toList
  match multipartRegex.search (Str.cStr contentType) with
  | some what =>
    (mimeReadStream read [] body (what.getD 1 [])).map fun r => r.map fun mime => ⟨header, true, .inr mime⟩
  | none => some (.ok ⟨header, false, .inl body⟩)

def decodeBody (header : List (Str × Str)) (body : Str) : Option (Except ImfExn Imf) :=
  let (contentTransferEncoding, header) := subscript header "content-transfer-encoding".toList
  let decoded := if Str.toLower contentTransferEncoding = "base64".toList then Str.base64Decode body else .ok body
  match decoded with
  | .ok body => imfDecodeMultipart read header body
  | .error e => some (.error e)

end Parts

/-- `imf_read_stream` with any function in the place of `process_line`. -/
def imfReadStreamWith (process : Nat → Str → Option (Except ImfExn (Str × Str))) : Nat → Str → Option (Except ImfExn Imf)
  | 0, _ => none
  | n + 1, text =>
    match Str.lines text with
    | [] => none
    | preLine :: lines =>
      match readLoop (process (n + 1)) [] preLine lines with
      | none => none
      | some (.error e) => some (.error e)
      | some (.ok (header, none)) => some (.ok ⟨header, false, .inl []⟩)
      | some (.ok (header, some body)) => decodeBody (imfReadStreamWith process n) header body

def imfReadStream : Nat → Str → Option (Except ImfExn Imf) := imfReadStreamWith processLine

end Imf

end Avbot
