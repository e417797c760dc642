import Avbot.Base.ErrorCode
import Mathlib.Data.List.Basic

/-!
# Strings

The few operations of `std::string` and of Boost's string algorithms that the bot uses, and the exceptions that leave its functions.
-/

namespace Avbot

open List

inductive Exn where
  | ptreeBadPath
  | ptreeBadData
  | outOfRange
  | soci
  | badLexicalCast
  | invalidArgument
  | nullPointer
  deriving DecidableEq, Repr

instance lawfulBEqStr : LawfulBEq Str := inferInstance

instance (priority := 2000) decidableForallMemStr (s : Str) (p : Char → Prop) [DecidablePred p] : Decidable (∀ c ∈ s, p c) :=
  List.decidableBAll p s

instance (priority := 2000) decidableForallMemOptionChar (c? : Option Char) (p : Char → Prop) [DecidablePred p] :
    Decidable (∀ c ∈ c?, p c) :=
  match c? with
  | none => .isTrue (by simp)
  | some c => decidable_of_iff (p c) (by simp)

namespace Str

def substr (s : Str) (pos : Nat) : Except Exn Str :=
  if pos ≤ s.length then .ok (s.drop pos) else .error .outOfRange

def isSpace (c : Char) : Bool := c ∈ " \t\n\r".toList ∨ c = '\x0b' ∨ c = '\x0c'

def find? (pat : Str) : Str → Option Nat
  | [] => if pat = [] then some 0 else none
  | c :: s => if pat.isPrefixOf (c :: s) then some 0 else (find? pat s).map (· + 1)

/-- `boost::replace_all`, with the number of characters of the last match still to be skipped. -/
def replaceAllFrom (pat sub : Str) : Nat → Str → Str
  | _, [] => []
  | skip + 1, _ :: s => replaceAllFrom pat sub skip s
  | 0, c :: s =>
    if pat.isPrefixOf (c :: s) then sub ++ replaceAllFrom pat sub (pat.length - 1) s
    else c :: replaceAllFrom pat sub 0 s

def replaceAll (s pat sub : Str) : Str :=
  if pat = [] then s else replaceAllFrom pat sub 0 s

theorem substr_of_le {s : Str} {pos : Nat} (hpos : pos ≤ s.length) :
    substr s pos = .ok (s.drop pos) := if_pos hpos

theorem substr_append (a b : Str) : substr (a ++ b) a.length = .ok b := by
  rw [substr_of_le (by simp), drop_left]

example : replaceAll "qq(%a)%a".toList "%a".toList "x".toList = "qq(x)x".toList := by decide

end Str

/-- A `std::istream` on a buffer: what is left of it, and whether a read has come to its end. Its only other flag is set with `eof` or not at all. -/
structure Istream where
  buf : Str
  eof : Bool

namespace Istream

/-- `in >> word` into an empty string. After the end nothing is read; a word that the end cuts off is read as it is. -/
def readWord (s : Istream) : Str × Istream :=
  if s.eof then ([], s)
  else
    let rest := s.buf.dropWhile Str.isSpace
    let left := rest.dropWhile fun c => !Str.isSpace c
    (rest.takeWhile fun c => !Str.isSpace c, ⟨left, left.isEmpty⟩)

theorem readWord_length_le (s : Istream) : s.readWord.2.buf.length ≤ s.buf.length := by
  unfold readWord
  split
  · exact Nat.le_refl _
  · exact ((dropWhile_suffix _).trans (dropWhile_suffix _)).length_le

theorem readWord_length_lt {s : Istream} (heof : s.readWord.2.eof = false) :
    s.readWord.2.buf.length < s.buf.length := by
  unfold readWord at heof ⊢
  split at heof
  · simp_all
  · rename_i hopen
    rw [if_neg hopen]
    have hrest := (dropWhile_suffix (l := s.buf) Str.isSpace).length_le
    cases hword : s.buf.dropWhile Str.isSpace with
    | nil => simp [hword] at heof
    | cons c rest =>
      have hc : Str.isSpace c = false := by
        have hhead := head_dropWhile_not Str.isSpace (l := s.buf) (by simp [hword])
        simpa [hword] using hhead
      rw [hword] at hrest
      have hdrop := (dropWhile_suffix (l := rest) fun c => !Str.isSpace c).length_le
      simp only [dropWhile_cons, hc, Bool.not_false, if_true]
      simp only [length_cons] at hrest
      omega

end Istream

end Avbot
