import Avbot.Base.MachineInt
import Avbot.Http.Parsers

/-!
# Bencoding

The values that a meta file is made of, the writer and the reader. The reader gives up on the first error and then answers the undefined entry; it only goes a hundred levels deep, and looks at the next character of a list or a dictionary without asking whether there is one.
-/

namespace Avbot

open List
open Str (cStr decimal decimalInt)

namespace Http

/-- How a function ends that does not return: with an exception, or in behaviour that C++ does not define. -/
inductive Fault where
  | undefined
  | typeError
  | lengthError
  deriving DecidableEq

/-- The class `entry`. A dictionary lists its keys in their order. -/
inductive Entry where
  | int (value : Int)
  | string (value : Str)
  | list (entries : List Entry)
  | dictionary (entries : List (Str × Entry))
  | undefined

namespace Entry

def insertKey (key : Str) (value : Entry) : List (Str × Entry) → List (Str × Entry)
  | [] => [(key, value)]
  | (k, v) :: rest =>
    if key = k then (k, value) :: rest
    else if key < k then (key, value) :: (k, v) :: rest
    else (k, v) :: insertKey key value rest

/-- `e.dict()`, which makes an undefined entry a dictionary. -/
def dict : Entry → Except Fault (List (Str × Entry))
  | .dictionary entries => .ok entries
  | .undefined => .ok []
  | _ => .error .typeError

def get (e : Entry) (key : Str) : Except Fault Entry := do
  let entries ← e.dict
  return (entries.lookup key).getD .undefined

def set (e : Entry) (key : Str) (value : Entry) : Except Fault Entry := do
  let entries ← e.dict
  return .dictionary (insertKey key value entries)

/-- `e.integer()`. The number of an undefined entry is not initialised. -/
def integer : Entry → Except Fault Int
  | .int value => .ok value
  | .undefined => .error .undefined
  | _ => .error .typeError

/-- `e.string()`, which makes an undefined entry the empty text. -/
def text : Entry → Except Fault Str
  | .string value => .ok value
  | .undefined => .ok []
  | _ => .error .typeError

end Entry

def bencodeString (value : Str) : Str := decimal value.length ++ ':' :: value

mutual

def bencode : Entry → Str
  | .int value => 'i' :: decimalInt value ++ ['e']
  | .string value => bencodeString value
  | .list entries => 'l' :: bencodeList entries ++ ['e']
  | .dictionary entries => 'd' :: bencodeDict entries ++ ['e']
  | .undefined => []

def bencodeList : List Entry → Str
  | [] => []
  | e :: entries => bencode e ++ bencodeList entries

def bencodeDict : List (Str × Entry) → Str
  | [] => []
  | (key, e) :: entries => bencodeString key ++ bencode e ++ bencodeDict entries

end

/-- Why the reader stops: it has set `err`, or it looks at a character behind the end. -/
inductive Stop where
  | err
  | undefined
  deriving DecidableEq

def Bencode.readUntil (endToken : Char) (s : Str) : Except Stop (Str × Str) :=
  match s.dropWhile (· ≠ endToken) with
  | [] => .error .err
  | _ :: rest => .ok (s.takeWhile (· ≠ endToken), rest)

def readString (len : Int) (s : Str) : Except Stop (Str × Str) :=
  if s.length < len.toNat then .error .err else .ok (s.take len.toNat, s.drop len.toNat)

def atoi (s : Str) : Int := int32 (strtoll (cStr s))

/-- Whether `strtoll` finds a digit where it looks for one, so that its end pointer moves. -/
def converts (s : Str) : Bool :=
  match s.dropWhile Str.isSpace with
  | '-' :: s => s.head?.any Char.isDigit
  | '+' :: s => s.head?.any Char.isDigit
  | s => s.head?.any Char.isDigit

def bdecodeInteger (s : Str) : Except Stop (Entry × Str) := do
  let (val, rest) ← Bencode.readUntil 'e' s
  if converts (cStr val) then return (.int (strtoll (cStr val)), rest) else .error .err

def bdecodeString (s : Str) : Except Stop (Entry × Str) := do
  let (len, rest) ← Bencode.readUntil ':' s
  let (value, rest) ← readString (atoi len) rest
  return (.string value, rest)

/-- The loop of the case `'l'`. It needs as many rounds as there are characters at most. -/
def bdecodeList (decode : Str → Except Stop (Entry × Str)) : Nat → List Entry → Str → Except Stop (Entry × Str)
  | _, _, [] | 0, _, _ => .error .undefined
  | fuel + 1, entries, c :: s =>
    if c = 'e' then .ok (.list entries, s)
    else do
      let (e, rest) ← decode (c :: s)
      if rest = [] then .error .err else bdecodeList decode fuel (entries ++ [e]) rest

/-- The loop of the case `'d'`. A key that is not a text ends it without an error. -/
def bdecodeDict (decode : Str → Except Stop (Entry × Str)) :
    Nat → List (Str × Entry) → Str → Except Stop (Entry × Str)
  | _, _, [] | 0, _, _ => .error .undefined
  | fuel + 1, entries, c :: s =>
    if c = 'e' then .ok (.dictionary entries, s)
    else do
      let (key, rest) ← decode (c :: s)
      match key with
      | .string key =>
        let (e, rest) ← decode rest
        if rest = [] then .error .err else bdecodeDict decode fuel (Entry.insertKey key e entries) rest
      | _ => return (.dictionary entries, rest)

def bdecodeRecursive : Nat → Str → Except Stop (Entry × Str)
  | 0, _ | _, [] => .error .err
  | depth + 1, c :: s =>
    if c = 'i' then bdecodeInteger s
    else if c = 'l' then bdecodeList (bdecodeRecursive depth) (s.length + 1) [] s
    else if c = 'd' then bdecodeDict (bdecodeRecursive depth) (s.length + 1) [] s
    else if c.isDigit then bdecodeString (c :: s)
    else .error .err

def bdecode (s : Str) : Except Fault Entry :=
  match bdecodeRecursive 100 s with
  | .ok (e, _) => .ok e
  | .error .err => .ok .undefined
  | .error .undefined => .error .undefined

/-- The entries that can be written and read within some levels. The smallest number is left out, its sign cannot be changed. -/
def Entry.Fits : Nat → Entry → Prop
  | 0, _ | _, .undefined => False
  | _ + 1, .int value => -9223372036854775808 < value ∧ value ≤ 9223372036854775807
  | _ + 1, .string value => value.length < intLimit
  | depth + 1, .list entries => ∀ e ∈ entries, e.Fits depth
  | depth + 1, .dictionary entries =>
    (entries.map Prod.fst).Pairwise (· < ·) ∧ ∀ p ∈ entries, p.1.length < intLimit ∧ p.2.Fits depth

theorem Bencode.readUntil_append {endToken : Char} {s : Str} (hs : endToken ∉ s) (rest : Str) :
    Bencode.readUntil endToken (s ++ endToken :: rest) = .ok (s, rest) := by
  have hall : ∀ c ∈ s, (decide (c ≠ endToken)) = true := by
    intro c hc
    simpa using fun heq : c = endToken => hs (heq ▸ hc)
  rw [Bencode.readUntil, dropWhile_append_of_pos hall, takeWhile_append_of_pos hall]
  simp

theorem readString_append (value rest : Str) : readString value.length (value ++ rest) = .ok (value, rest) := by
  simp [readString]

theorem atoi_decimal {n : Nat} (hn : n < intLimit) : atoi (decimal n) = n := by
  rw [intLimit] at hn
  have hread := strtoll_decimalInt (n := n) (by omega)
  rw [decimalInt, if_neg (by omega), Int.natAbs_natCast] at hread
  rw [atoi, hread, int32_of_fits (by omega) (by omega)]

theorem decimal_cons (n : Nat) : ∃ d ds, decimal n = d :: ds ∧ d.isDigit = true := by
  obtain ⟨d, ds, hds⟩ := exists_cons_of_ne_nil (Str.decimal_ne_nil n)
  exact ⟨d, ds, hds, Str.isDigit_of_mem_decimal (by rw [hds]; exact mem_cons_self)⟩

theorem converts_decimal (n : Nat) : converts (decimal n) = true := by
  obtain ⟨d, ds, hds, hd⟩ := decimal_cons n
  rw [hds, converts, dropWhile_cons_of_neg (by simp [Str.isSpace_of_isDigit hd])]
  split <;> rename_i heq
  · obtain ⟨rfl, -⟩ := List.cons.inj heq
    exact absurd hd (by decide)
  · obtain ⟨rfl, -⟩ := List.cons.inj heq
    exact absurd hd (by decide)
  · simp [hd]

theorem converts_decimalInt (n : Int) : converts (decimalInt n) = true := by
  rw [decimalInt]
  split
  · obtain ⟨d, ds, hds, hd⟩ := decimal_cons n.natAbs
    rw [hds, converts, dropWhile_cons_of_neg (by decide)]
    simp [hd]
  · exact converts_decimal n.natAbs

theorem bdecodeInteger_append {value : Int} (hlow : -9223372036854775808 < value)
    (hhigh : value ≤ 9223372036854775807) (rest : Str) :
    bdecodeInteger (decimalInt value ++ 'e' :: rest) = .ok (.int value, rest) := by
  have htoken : 'e' ∉ decimalInt value := by
    rw [decimalInt]
    split
    · simp [Str.not_mem_decimal (n := value.natAbs) (c := 'e') (by decide)]
    · exact Str.not_mem_decimal (by decide)
  have hread := strtoll_decimalInt (n := value) (by omega)
  rw [Str.cStr_decimalInt] at hread
  rw [bdecodeInteger, Bencode.readUntil_append htoken]
  show (if converts (cStr (decimalInt value)) then _ else _) = _
  rw [Str.cStr_decimalInt, if_pos (converts_decimalInt value), hread]
  rfl

theorem bdecodeString_append {value : Str} (hlen : value.length < intLimit) (rest : Str) :
    bdecodeString (bencodeString value ++ rest) = .ok (.string value, rest) := by
  have htoken : ':' ∉ decimal value.length := Str.not_mem_decimal (by decide)
  rw [bencodeString, append_assoc, cons_append, bdecodeString, Bencode.readUntil_append htoken]
  show (readString (atoi (decimal value.length)) (value ++ rest) >>= _) = _
  rw [atoi_decimal hlen, readString_append]
  rfl

theorem bencodeString_cons (value : Str) :
    ∃ d s, bencodeString value = d :: s ∧ d.isDigit = true ∧ d ≠ 'i' ∧ d ≠ 'l' ∧ d ≠ 'd' ∧ d ≠ 'e' := by
  obtain ⟨d, ds, hds, hd⟩ := decimal_cons value.length
  have hne : ∀ c : Char, c.isDigit = false → d ≠ c := fun c hc heq => by simp [← heq, hd] at hc
  refine ⟨d, ds ++ ':' :: value, by rw [bencodeString, hds, cons_append], hd, ?_⟩
  exact ⟨hne 'i' (by decide), hne 'l' (by decide), hne 'd' (by decide), hne 'e' (by decide)⟩

theorem bdecodeRecursive_string {value : Str} (hlen : value.length < intLimit) (depth : Nat) (rest : Str) :
    bdecodeRecursive (depth + 1) (bencodeString value ++ rest) = .ok (.string value, rest) := by
  rw [← bdecodeString_append hlen]
  obtain ⟨d, s, hcons, hdigit, hi, hl, hd, -⟩ := bencodeString_cons value
  rw [hcons, cons_append, bdecodeRecursive, if_neg hi, if_neg hl, if_neg hd, if_pos hdigit]

theorem bencode_cons {depth : Nat} {e : Entry} (hfits : e.Fits depth) : ∃ c s, bencode e = c :: s ∧ c ≠ 'e' := by
  cases depth with
  | zero => exact hfits.elim
  | succ depth =>
    cases e with
    | int value => exact ⟨'i', _, by rw [bencode]; rfl, by decide⟩
    | string value =>
      obtain ⟨d, s, hcons, -, -, -, -, he⟩ := bencodeString_cons value
      exact ⟨d, s, by rw [bencode, hcons], he⟩
    | list entries => exact ⟨'l', _, by rw [bencode]; rfl, by decide⟩
    | dictionary entries => exact ⟨'d', _, by rw [bencode]; rfl, by decide⟩
    | undefined => exact hfits.elim

theorem Entry.insertKey_of_lt {key : Str} {entries : List (Str × Entry)} (hlt : ∀ p ∈ entries, p.1 < key)
    (e : Entry) : insertKey key e entries = entries ++ [(key, e)] := by
  induction entries with
  | nil => rfl
  | cons p entries ih =>
    obtain ⟨k, v⟩ := p
    have hk : k < key := hlt (k, v) mem_cons_self
    have hne : key ≠ k := by
      intro heq
      subst heq
      exact List.lt_irrefl key hk
    rw [insertKey, if_neg hne, if_neg (List.lt_asymm hk), ih fun p hp => hlt p (mem_cons_of_mem _ hp)]
    rfl

section Loops

-- what the loops of the reader need to know of the reader one level below: it reads back what fits
variable {decode : Str → Except Stop (Entry × Str)} {depth : Nat}
  (hdecode : ∀ (e : Entry) (rest : Str), e.Fits depth → decode (bencode e ++ rest) = .ok (e, rest))

include hdecode

theorem bdecodeList_append {entries : List Entry} (hfits : ∀ e ∈ entries, e.Fits depth) {fuel : Nat}
    (hfuel : entries.length < fuel) (sofar : List Entry) (rest : Str) :
    bdecodeList decode fuel sofar (bencodeList entries ++ 'e' :: rest) = .ok (.list (sofar ++ entries), rest) := by
  induction entries generalizing fuel sofar with
  | nil =>
    obtain _ | fuel := fuel
    · cases hfuel
    simp [bencodeList, bdecodeList]
  | cons e entries ih =>
    obtain _ | fuel := fuel
    · cases hfuel
    have hread := hdecode e (bencodeList entries ++ 'e' :: rest) (hfits e mem_cons_self)
    obtain ⟨c, s, hcons, hc⟩ := bencode_cons (hfits e mem_cons_self)
    rw [bencodeList, append_assoc]
    rw [hcons, cons_append] at hread ⊢
    rw [bdecodeList, if_neg hc, hread]
    show (if bencodeList entries ++ 'e' :: rest = [] then _ else _) = _
    rw [if_neg (by simp), ih (fun e he => hfits e (mem_cons_of_mem _ he)) (by simpa using hfuel)]
    simp

theorem bdecodeDict_append {entries : List (Str × Entry)} {fuel : Nat} (hfuel : entries.length < fuel)
    {sofar : List (Str × Entry)} (hsorted : ((sofar ++ entries).map Prod.fst).Pairwise (· < ·))
    (hkey : ∀ p ∈ entries, ∀ rest, decode (bencodeString p.1 ++ rest) = .ok (.string p.1, rest))
    (hfits : ∀ p ∈ entries, p.2.Fits depth) (rest : Str) :
    bdecodeDict decode fuel sofar (bencodeDict entries ++ 'e' :: rest) = .ok (.dictionary (sofar ++ entries), rest) := by
  induction entries generalizing fuel sofar with
  | nil =>
    obtain _ | fuel := fuel
    · cases hfuel
    simp [bencodeDict, bdecodeDict]
  | cons p entries ih =>
    obtain ⟨key, e⟩ := p
    obtain _ | fuel := fuel
    · cases hfuel
    have hreadKey := hkey (key, e) mem_cons_self (bencode e ++ (bencodeDict entries ++ 'e' :: rest))
    have hread := hdecode e (bencodeDict entries ++ 'e' :: rest) (hfits (key, e) mem_cons_self)
    obtain ⟨d, s, hcons, -, -, -, -, hd⟩ := bencodeString_cons key
    have hlast : Entry.insertKey key e sofar = sofar ++ [(key, e)] := by
      apply Entry.insertKey_of_lt
      intro p hp
      rw [map_append, pairwise_append] at hsorted
      exact hsorted.2.2 p.1 (mem_map_of_mem hp) key (by simp)
    have hsplit : sofar ++ (key, e) :: entries = (sofar ++ [(key, e)]) ++ entries := by simp
    rw [bencodeDict, append_assoc, append_assoc]
    rw [hcons, cons_append] at hreadKey ⊢
    rw [bdecodeDict, if_neg hd, hreadKey]
    show (decode (bencode e ++ (bencodeDict entries ++ 'e' :: rest)) >>= _) = _
    rw [hread]
    show (if bencodeDict entries ++ 'e' :: rest = [] then _ else
      bdecodeDict decode fuel (Entry.insertKey key e sofar) (bencodeDict entries ++ 'e' :: rest)) = _
    rw [if_neg (by simp), hlast, hsplit]
    rw [hsplit] at hsorted
    exact ih (by simpa using hfuel) hsorted (fun p hp => hkey p (mem_cons_of_mem _ hp))
      fun p hp => hfits p (mem_cons_of_mem _ hp)

end Loops

theorem length_le_bencodeList {entries : List Entry} {depth : Nat} (hfits : ∀ e ∈ entries, e.Fits depth) :
    entries.length ≤ (bencodeList entries).length := by
  induction entries with
  | nil => exact Nat.zero_le _
  | cons e entries ih =>
    obtain ⟨c, s, hcons, -⟩ := bencode_cons (hfits e mem_cons_self)
    have hrest := ih fun e he => hfits e (mem_cons_of_mem _ he)
    rw [bencodeList, hcons]
    simp only [length_cons, length_append]
    omega

theorem length_le_bencodeDict (entries : List (Str × Entry)) : entries.length ≤ (bencodeDict entries).length := by
  induction entries with
  | nil => exact Nat.zero_le _
  | cons p entries ih =>
    obtain ⟨key, e⟩ := p
    obtain ⟨d, s, hcons, -⟩ := bencodeString_cons key
    rw [bencodeDict, hcons]
    simp only [length_cons, length_append]
    omega

theorem bdecodeRecursive_bencode {depth : Nat} {e : Entry} (hfits : e.Fits depth) (rest : Str) :
    bdecodeRecursive depth (bencode e ++ rest) = .ok (e, rest) := by
  -- the induction is on the levels: the loops read their parts one level further down
  induction depth generalizing e rest with
  | zero => exact hfits.elim
  | succ depth ih =>
    cases e with
    | int value =>
      rw [bencode, cons_append, cons_append, bdecodeRecursive, if_pos rfl, append_assoc]
      exact bdecodeInteger_append hfits.1 hfits.2 rest
    | string value =>
      rw [bencode]
      exact bdecodeRecursive_string hfits depth rest
    | list entries =>
      have hlen := length_le_bencodeList hfits
      rw [bencode, cons_append, cons_append, bdecodeRecursive, if_neg (by decide), if_pos rfl, append_assoc]
      apply bdecodeList_append (fun e rest he => ih he rest) hfits
      simp only [length_append]
      omega
    | dictionary entries =>
      obtain ⟨hsorted, hparts⟩ := hfits
      have hlen := length_le_bencodeDict entries
      rw [bencode, cons_append, cons_append, bdecodeRecursive, if_neg (by decide), if_neg (by decide),
        if_pos rfl, append_assoc]
      apply bdecodeDict_append (fun e rest he => ih he rest)
      · simp only [length_append]
        omega
      · exact hsorted
      · intro p hp rest
        obtain ⟨hkey, hvalue⟩ := hparts p hp
        cases depth with
        | zero => exact hvalue.elim
        | succ depth => exact bdecodeRecursive_string hkey depth rest
      · exact fun p hp => (hparts p hp).2
    | undefined => exact hfits.elim

theorem bdecode_bencode {e : Entry} (hfits : e.Fits 100) (rest : Str) : bdecode (bencode e ++ rest) = .ok e := by
  rw [bdecode, bdecodeRecursive_bencode hfits]

end Http

end Avbot
