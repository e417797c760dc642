import Avbot.Base.StringAlgo
import Avbot.Lib.Base64

/-!
# `boost/base64.hpp`

The encoders write what is left over, filled up with zeros, as a last group that ends in `=`. They keep their lengths in variables of the type `unsigned`, and write the last group through the string `tail` of four characters: from 4294967298 bytes on, all but a few bytes count as the last group, and the loop that fills `tail` leaves it. The decoder reads `=` as zero and then erases the filling, but with the numbers for one and two `=` exchanged and one position too far to the left. A byte is a character below 256.
-/

namespace Avbot

open List Option Base64 Except

/-- What reading a mail can throw. `undefined` is a read outside of a string or of an array. -/
inductive ImfExn where
  | badExpression
  | dataflow
  | outOfRange
  | conversion
  | badGet
  | assertion
  | undefined
  deriving DecidableEq, Repr

namespace Str

def encodeGroups (src : Str) : Str := (sextets (src.map Char.toNat)).map encodeChar

/-- `boost::archive::iterators::insert_linebreaks`, with `m_count`. -/
def insertLinebreaks (n : Nat) : Nat → Str → Str
  | _, [] => []
  | count, c :: s =>
    if count = n then '\n' :: c :: insertLinebreaks n 1 s else c :: insertLinebreaks n (count + 1) s

end Str

namespace Boost

def oneThirdLen (src : Str) : Nat := src.length / 3 % 4294967296

def lenRoundedDown (src : Str) : Nat := oneThirdLen src * 3 % 4294967296

def tail (rest : Str) : Except ImfExn Str :=
  if 4 < rest.length then .error .undefined else .ok (rest ++ List.replicate (4 - rest.length) '\x00')

/-- `tailbase`, of five characters, with `i` as the loop over `tail` leaves it. -/
def tailbase (copied : Str) (i : Nat) : Except ImfExn Str :=
  -- `3-i` is `unsigned`, and above three it is no small number
  if 5 < copied.length ∨ 3 < i then .error .undefined
  else
    .ok ((List.range (3 - i)).foldl (fun tailbase k => tailbase.set (3 - k) '=')
      (copied ++ List.replicate (5 - copied.length) '\x00'))

/-- The last group, where `lines` is what the iterator does with its characters. -/
def encodeRest (lines : Str → Str) (rest : Str) : Except ImfExn Str := do
  let tail ← tail rest
  let tailbase ← tailbase (lines (Str.encodeGroups (tail.take 3))) rest.length
  return Str.cStr tailbase

def base64Encode (src : Str) : Except ImfExn Str := do
  let base64str := Str.cStr (Str.encodeGroups (src.take (lenRoundedDown src)))
  if lenRoundedDown src ≠ src.length then
    return base64str ++ (← encodeRest id (src.drop (lenRoundedDown src)))
  else
    return base64str

/-- What `boost::base64_encode<N>` writes to its stream. -/
def base64EncodeLines (n : Nat) (src : Str) : Except ImfExn Str := do
  let written := Str.insertLinebreaks n 0 (Str.encodeGroups (src.take (lenRoundedDown src)))
  if lenRoundedDown src ≠ src.length then
    return written ++ (← encodeRest (Str.insertLinebreaks n 0) (src.drop (lenRoundedDown src)))
  else
    return written

end Boost

namespace Str

def shrikMap : List Nat := [0, 2, 1]

def fromBase64 (c : Char) : Option Nat := if c = '=' then some 0 else decodeChar c

/-- The number of `=` at the end, as the distance from the first to the last one. -/
def countPadding (str : Str) : Nat :=
  if str.contains '=' then (str.length - 1 - str.reverse.idxOf '=') - str.idxOf '=' + 1 else 0

def decodeGroups (str : Str) : Option Str :=
  (((str.filter (! isSpace ·)).mapM fromBase64).bind octets).map (·.map Char.ofNat)

def base64Decode (str : Str) : Except ImfExn Str :=
  match str.rdropWhile (· ∈ "\r\n.".toList) with
  -- `rbegin` of the empty string is read
  | [] => .error .undefined
  | c :: str =>
    match shrikMap[countPadding (c :: str)]? with
    | none => .error .undefined
    | some numToShrik =>
      match decodeGroups (c :: str) with
      | none => .error .dataflow
      | some result =>
        if result.length < 1 + numToShrik then .error .outOfRange
        else .ok (result.take (result.length - 1 - numToShrik) ++ result.drop (result.length - 1))

def encodeTail (tail : Str) : Str :=
  if tail = [] then []
  else
    let tailbase := encodeGroups ((tail ++ ['\x00', '\x00']).take 3)
    tailbase.take (tail.length + 1) ++ List.replicate (3 - tail.length) '='

def lenRoundedDown (src : Str) : Nat := src.length / 3 * 3

/-- The text of a string whose length the encoders can hold. -/
def base64Text (src : Str) : Str :=
  encodeGroups (src.take (lenRoundedDown src)) ++ encodeTail (src.drop (lenRoundedDown src))

/-- The same text in lines. The last group starts no new one. -/
def base64TextLines (n : Nat) (src : Str) : Str :=
  insertLinebreaks n 0 (encodeGroups (src.take (lenRoundedDown src))) ++ encodeTail (src.drop (lenRoundedDown src))

theorem alphabet_plain : ∀ c ∈ alphabet, isSpace c = false ∧ c ≠ '=' ∧ c ∉ "\r\n.".toList ∧ c ≠ '\x00' := by
  decide

theorem mem_alphabet_of_mem_encodeGroups {src : Str} {c : Char} (hc : c ∈ encodeGroups src) : c ∈ alphabet := by
  obtain ⟨n, _, rfl⟩ := mem_map.mp hc
  exact encodeChar_mem n

theorem fromBase64_encodeChar {n : Nat} (hn : n < 64) : fromBase64 (encodeChar n) = some n := by
  rw [fromBase64, if_neg (alphabet_plain _ (encodeChar_mem n)).2.1, decodeChar_encodeChar n hn]

theorem mapM_fromBase64_encodeChar {l : List Nat} (hl : ∀ n ∈ l, n < 64) :
    (l.map encodeChar).mapM fromBase64 = some l := by
  induction l with
  | nil => rfl
  | cons n l ih =>
    rw [map_cons, mapM_cons, fromBase64_encodeChar (hl n (by simp)), ih fun m hm => hl m (by simp [hm])]
    rfl

theorem mapM_fromBase64_isSome {s : Str} (hs : ∀ c ∈ s, c ∈ alphabet ∨ c = '=') :
    ∃ l, s.mapM fromBase64 = some l ∧ l.length = s.length := by
  induction s with
  | nil => exact ⟨[], rfl, rfl⟩
  | cons c s ih =>
    obtain ⟨l, hl, hlength⟩ := ih fun d hd => hs d (by simp [hd])
    obtain ⟨n, hn⟩ : ∃ n, fromBase64 c = some n := by
      rcases hs c (by simp) with hc | rfl
      · rw [fromBase64, if_neg (alphabet_plain c hc).2.1, decodeChar]
        exact isSome_iff_exists.mp (by simpa using hc)
      · exact ⟨0, rfl⟩
    exact ⟨n :: l, by rw [mapM_cons, hn, hl]; rfl, by simp [hlength]⟩

theorem encodeTail_nil : encodeTail [] = [] := if_pos rfl

theorem encodeTail_eq {tail : Str} (hne : tail ≠ []) (hlt : tail.length < 3) :
    ∃ front, encodeTail tail = front ++ replicate (3 - tail.length) '=' ∧ front.length = tail.length + 1 ∧
      ∀ c ∈ front, c ∈ alphabet := by
  refine ⟨(encodeGroups ((tail ++ ['\x00', '\x00']).take 3)).take (tail.length + 1), by rw [encodeTail, if_neg hne], ?_, ?_⟩
  · have hpos := length_pos_iff.mpr hne
    simp only [encodeGroups, length_take, length_map, length_sextets, length_append, length_cons, length_nil]
    omega
  · intro c hc
    exact mem_alphabet_of_mem_encodeGroups (mem_of_mem_take hc)

section Decode

variable {front nl b : Str} {j : Nat}

theorem countPadding_eq (hfront : '=' ∉ front) : countPadding (front ++ replicate j '=') = j := by
  cases j with
  | zero =>
    rw [replicate_zero, append_nil, countPadding, if_neg (by simpa using hfront)]
  | succ j =>
    have hfirst : (front ++ replicate (j + 1) '=').idxOf '=' = front.length := by
      rw [idxOf_append_of_notMem hfront, replicate_succ, idxOf_cons_self, Nat.add_zero]
    have hlast : (front ++ replicate (j + 1) '=').reverse.idxOf '=' = 0 := by
      rw [reverse_append, reverse_replicate, replicate_succ, cons_append, idxOf_cons_self]
    rw [countPadding, if_pos (by simp), hfirst, hlast]
    simp only [length_append, length_replicate]
    omega

theorem rdropWhile_append_eq {p : Char → Bool} {s t : Str} (hs : ∃ c ∈ s.getLast?, p c = false) (ht : ∀ c ∈ t, p c = true) :
    (s ++ t).rdropWhile p = s := by
  obtain ⟨c, hc, hp⟩ := hs
  have hreverse : ∀ c ∈ t.reverse, p c = true := fun c hc => ht c (mem_reverse.mp hc)
  rw [rdropWhile, reverse_append, dropWhile_append_of_pos hreverse]
  show s.rdropWhile p = s
  rw [rdropWhile_eq_self_iff]
  intro hne hlast
  rw [getLast?_eq_some_getLast hne, mem_some_iff] at hc
  rw [hc, hp] at hlast
  exact Bool.false_ne_true hlast

theorem base64Decode_eq (hfront : '=' ∉ front) (hlast : ∃ c ∈ (front ++ replicate j '=').getLast?, c ∉ "\r\n.".toList)
    (hnl : ∀ c ∈ nl, c ∈ "\r\n.".toList) {result : Str} {shrik : Nat} (hshrik : shrikMap[j]? = some shrik)
    (hresult : decodeGroups (front ++ replicate j '=') = some result) (hlength : 1 + shrik ≤ result.length) :
    base64Decode (front ++ replicate j '=' ++ nl) =
      .ok (result.take (result.length - 1 - shrik) ++ result.drop (result.length - 1)) := by
  obtain ⟨c, hc, hcls⟩ := hlast
  have hstrip : (front ++ replicate j '=' ++ nl).rdropWhile (· ∈ "\r\n.".toList) =
      front ++ replicate j '=' :=
    rdropWhile_append_eq ⟨c, hc, by simpa using hcls⟩ fun c hc => by simpa using hnl c hc
  have hcount := countPadding_eq (j := j) hfront
  rw [base64Decode, hstrip]
  cases htext : front ++ replicate j '=' with
  | nil => simp [htext] at hc
  | cons d text =>
    rw [htext] at hcount hresult
    simp only [hcount, hshrik, hresult]
    exact if_neg (by omega)

end Decode

theorem length_mapM {α β : Type} {f : α → Option β} {l : List α} {m : List β} (hm : l.mapM f = some m) :
    m.length = l.length := by
  induction l generalizing m with
  | nil => simp_all
  | cons a l ih =>
    rw [mapM_cons] at hm
    obtain ⟨b, _, hb⟩ := bind_eq_some_iff.mp hm
    obtain ⟨k, hk, hbk⟩ := bind_eq_some_iff.mp hb
    obtain rfl : b :: k = m := some.inj hbk
    rw [length_cons, length_cons, ih hk]

theorem exists_characters_of_base64Decode {str r : Str} (hdecode : base64Decode str = .ok r) :
    ∃ (characters : Str) (l : List Nat), characters.Sublist str ∧ characters.mapM fromBase64 = some l ∧ r.length ≤ characters.length := by
  have hstrip : (str.rdropWhile (· ∈ "\r\n.".toList)).Sublist str := ( rdropWhile_prefix _ _).sublist
  rw [base64Decode] at hdecode
  generalize str.rdropWhile (· ∈ "\r\n.".toList) = stripped at hdecode hstrip
  cases stripped with
  | nil => simp at hdecode
  | cons c s =>
    simp only at hdecode
    cases hshrik : shrikMap[countPadding (c :: s)]? with
    | none => simp [hshrik] at hdecode
    | some shrik =>
      cases hgroups : decodeGroups (c :: s) with
      | none => simp [hshrik, hgroups] at hdecode
      | some result =>
        simp only [hshrik, hgroups] at hdecode
        split at hdecode
        · simp at hdecode
        · rw [ok.injEq] at hdecode
          obtain ⟨l, hl, hresult⟩ := map_eq_some_iff.mp hgroups
          obtain ⟨m, hm, hoctets⟩ := bind_eq_some_iff.mp hl
          refine ⟨_, m, filter_sublist.trans hstrip, hm, ?_⟩
          have hcharacters := length_mapM hm
          have hlength := length_octets_le hoctets
          have hmap : result.length = l.length := by rw [← hresult, length_map]
          rw [← hdecode, length_append, length_take, length_drop]
          omega

theorem length_base64Decode_le {str r : Str} (hdecode : base64Decode str = .ok r) : r.length ≤ str.length := by
  obtain ⟨characters, l, hsub, _, hlength⟩ := exists_characters_of_base64Decode hdecode
  exact hlength.trans hsub.length_le

def padding (src : Str) : Str := List.replicate ((3 - src.length % 3) % 3) '='

theorem encodeTail_drop (src : Str) :
    ∃ front, encodeTail (src.drop (lenRoundedDown src)) = front ++ padding src ∧ (∀ c ∈ front, c ∈ alphabet) ∧
      front.length + (padding src).length = (src.length + 2) / 3 * 4 - src.length / 3 * 4 := by
  have hlength : (src.drop (lenRoundedDown src)).length = src.length % 3 := by
    simp only [length_drop, lenRoundedDown]
    omega
  by_cases hwhole : src.length % 3 = 0
  · refine ⟨[], ?_, by simp, ?_⟩
    · rw [hwhole] at hlength
      rw [length_eq_zero_iff.mp hlength, encodeTail_nil, padding, hwhole]
      rfl
    · simp only [padding, hwhole, length_replicate, length_nil]
      omega
  · have hne : src.drop (lenRoundedDown src) ≠ [] := by
      intro hnil
      rw [hnil, length_nil] at hlength
      exact hwhole hlength.symm
    obtain ⟨front, hfront, hfrontLength, halphabet⟩ := encodeTail_eq hne (by omega)
    refine ⟨front, ?_, halphabet, ?_⟩
    · rw [hfront, hlength, padding, Nat.mod_eq_of_lt (show 3 - src.length % 3 < 3 by omega)]
    · rw [hfrontLength, hlength, padding, length_replicate]
      omega

theorem length_encodeGroups_take (src : Str) :
    (encodeGroups (src.take (lenRoundedDown src))).length = src.length / 3 * 4 := by
  simp only [encodeGroups, length_map, length_sextets, length_take, lenRoundedDown]
  omega

theorem mem_base64Text {src : Str} {c : Char} (hc : c ∈ base64Text src) : c ∈ alphabet ∨ c = '=' := by
  obtain ⟨front, htail, halphabet, _⟩ := encodeTail_drop src
  rw [base64Text, htail] at hc
  rcases mem_append.mp hc with hc | hc
  · exact .inl (mem_alphabet_of_mem_encodeGroups hc)
  · rcases mem_append.mp hc with hc | hc
    · exact .inl (halphabet c hc)
    · exact .inr (eq_of_mem_replicate hc)

theorem length_base64Text (src : Str) : (base64Text src).length = (src.length + 2) / 3 * 4 := by
  obtain ⟨front, htail, _, hlength⟩ := encodeTail_drop src
  rw [base64Text, htail, length_append, length_encodeGroups_take, length_append, hlength]
  omega

section Shape

variable {src front : Str}

section

variable (hfront : front.filter (! isSpace ·) ++ padding src = base64Text src)

include hfront

theorem filter_eq : (front ++ padding src).filter (! isSpace ·) = base64Text src := by
  have hpadding : (padding src).filter (! isSpace ·) = padding src := by
    rw [filter_eq_self]
    intro c hc
    rw [eq_of_mem_replicate hc]
    decide
  rw [filter_append, hpadding, hfront]

theorem equals_not_mem : '=' ∉ front := by
  obtain ⟨tailFront, htail, halphabet, _⟩ := encodeTail_drop src
  intro hmem
  have hfilter : front.filter (! isSpace ·) = encodeGroups (src.take (lenRoundedDown src)) ++ tailFront := by
    rw [base64Text, htail, ← append_assoc] at hfront
    exact append_cancel_right hfront
  have hin : '=' ∈ encodeGroups (src.take (lenRoundedDown src)) ++ tailFront := by
    rw [← hfilter]
    exact mem_filter.mpr ⟨hmem, by decide⟩
  rcases mem_append.mp hin with hc | hc
  · exact (alphabet_plain _ (mem_alphabet_of_mem_encodeGroups hc)).2.1 rfl
  · exact (alphabet_plain _ (halphabet _ hc)).2.1 rfl

theorem decodeGroups_eq :
    ∃ result, decodeGroups (front ++ padding src) = some result ∧ result.length = (src.length + 2) / 3 * 3 := by
  obtain ⟨l, hl, hlength⟩ := mapM_fromBase64_isSome (s := base64Text src) fun c hc => mem_base64Text hc
  rw [length_base64Text] at hlength
  obtain ⟨r, hr, hrlength⟩ := length_octets hlength
  refine ⟨r.map Char.ofNat, ?_, by simpa using hrlength⟩
  rw [decodeGroups, filter_eq hfront, hl, bind_some, hr]
  rfl

end

theorem decodeGroups_of_whole (hsrc : ∀ c ∈ src, c.toNat < 256) (hwhole : src.length % 3 = 0)
    (hfront : front.filter (! isSpace ·) ++ padding src = base64Text src) :
    decodeGroups (front ++ padding src) = some src := by
  have hall : base64Text src = encodeGroups src := by
    have hlen : lenRoundedDown src = src.length := by
      rw [lenRoundedDown]
      omega
    rw [base64Text, hlen, take_length, drop_length, encodeTail_nil, append_nil]
  have hbytes : ∀ n ∈ src.map Char.toNat, n < 256 := by
    intro n hn
    obtain ⟨c, hc, rfl⟩ := mem_map.mp hn
    exact hsrc c hc
  rw [decodeGroups, filter_eq hfront, hall, encodeGroups, mapM_fromBase64_encodeChar (lt_of_mem_sextets hbytes),
    bind_some, octets_sextets hbytes (by simpa using hwhole)]
  simp [Function.comp_def]

/-- An encoded text, with line ends between its characters and at its end, decodes to what was encoded exactly if that needed no filling. -/
theorem base64Decode_eq_ok_iff {nl : Str} (hne : src ≠ []) (hsrc : ∀ c ∈ src, c.toNat < 256)
    (hfront : front.filter (! isSpace ·) ++ padding src = base64Text src)
    (hlast : ∃ c ∈ (front ++ padding src).getLast?, c ∉ "\r\n.".toList) (hnl : ∀ c ∈ nl, c ∈ "\r\n.".toList) :
    base64Decode (front ++ padding src ++ nl) = .ok src ↔ src.length % 3 = 0 := by
  have hpos := length_pos_iff.mpr hne
  constructor
  · intro hdecode
    obtain ⟨result, hresult, hlength⟩ := decodeGroups_eq hfront
    by_contra hpart
    -- with one and with two fillings the wrong number of bytes is left
    obtain ⟨shrik, hshrik, hleft⟩ : ∃ shrik, shrikMap[(3 - src.length % 3) % 3]? = some shrik ∧
        (src.length + 2) / 3 * 3 - shrik ≠ src.length ∧ shrik ≤ 2 := by
      rcases (by omega : src.length % 3 = 1 ∨ src.length % 3 = 2) with h | h
      · exact ⟨1, by rw [h]; rfl, by omega, by omega⟩
      · exact ⟨2, by rw [h]; rfl, by omega, by omega⟩
    rw [padding, base64Decode_eq (equals_not_mem hfront) hlast hnl hshrik hresult (by omega), ok.injEq] at hdecode
    have hlengths := congrArg length hdecode
    simp only [length_append, length_take, length_drop] at hlengths
    omega
  · intro hwhole
    have hresult := decodeGroups_of_whole hsrc hwhole hfront
    have hshrik : shrikMap[(3 - src.length % 3) % 3]? = some 0 := by
      rw [hwhole]
      rfl
    rw [padding, base64Decode_eq (equals_not_mem hfront) hlast hnl hshrik hresult (by omega), Nat.sub_zero,
      take_append_drop]

end Shape

variable {n count : Nat} {s : Str}

theorem mem_insertLinebreaks {c : Char} (hc : c ∈ insertLinebreaks n count s) : c ∈ s ∨ c = '\n' := by
  induction s generalizing count with
  | nil => simp [insertLinebreaks] at hc
  | cons d s ih =>
    rw [insertLinebreaks] at hc
    split at hc
    · rcases mem_cons.mp hc with rfl | hc
      · exact .inr rfl
      · rcases mem_cons.mp hc with rfl | hc
        · exact .inl mem_cons_self
        · exact (ih hc).imp_left (mem_cons_of_mem d)
    · rcases mem_cons.mp hc with rfl | hc
      · exact .inl mem_cons_self
      · exact (ih hc).imp_left (mem_cons_of_mem d)

theorem filter_insertLinebreaks {p : Char → Bool} (hnl : p '\n' = false)
    (hs : ∀ c ∈ s, p c = true) : (insertLinebreaks n count s).filter p = s := by
  induction s generalizing count with
  | nil => rfl
  | cons c s ih =>
    have hc := hs c (by simp)
    rw [insertLinebreaks]
    split <;> simp [hc, hnl, ih fun d hd => hs d (by simp [hd])]

theorem getLast?_insertLinebreaks (n count : Nat) (s : Str) : (insertLinebreaks n count s).getLast? = s.getLast? := by
  induction s generalizing count with
  | nil => rfl
  | cons c s ih =>
    rw [insertLinebreaks]
    split <;> simp [getLast?_cons, ih]

theorem base64TextLines_eq {src : Str} (hne : src ≠ []) :
    ∃ front, base64TextLines 78 src = front ++ padding src ∧
      front.filter (! isSpace ·) ++ padding src = base64Text src ∧
      (∀ c ∈ front, isSpace c = false ∨ c = '\n') ∧
      (∃ c rest, front ++ padding src = c :: rest ∧ c ≠ '\n') ∧
      ∃ c ∈ (front ++ padding src).getLast?, c ∉ "\r\n.".toList := by
  obtain ⟨tailFront, htail, halphabet, hlength⟩ := encodeTail_drop src
  have hgroups : ∀ c ∈ encodeGroups (src.take (lenRoundedDown src)), c ∈ alphabet :=
    fun c hc => mem_alphabet_of_mem_encodeGroups hc
  have hplain : ∀ c ∈ tailFront, isSpace c = false := fun c hc => (alphabet_plain c (halphabet c hc)).1
  have htailPlain : ∀ c ∈ tailFront ++ padding src, c ≠ '\n' ∧ c ∉ "\r\n.".toList := by
    intro c hc
    rcases mem_append.mp hc with hc | hc
    · exact ⟨fun h => (alphabet_plain c (halphabet c hc)).2.2.1 (by simp [h]), (alphabet_plain c (halphabet c hc)).2.2.1⟩
    · rw [eq_of_mem_replicate hc]
      decide
  -- a text that is not empty has groups or something left
  have hsome : encodeGroups (src.take (lenRoundedDown src)) = [] → tailFront ++ padding src ≠ [] := by
    intro hnil htailnil
    have hlt : src.length / 3 * 4 = 0 := by rw [← length_encodeGroups_take, hnil, length_nil]
    have hzero := congrArg length htailnil
    rw [length_append, hlength, length_nil] at hzero
    have hpos := length_pos_iff.mpr hne
    omega
  refine ⟨insertLinebreaks 78 0 (encodeGroups (src.take (lenRoundedDown src))) ++ tailFront, ?_, ?_, ?_, ?_, ?_⟩
  · rw [base64TextLines, htail, append_assoc]
  · rw [filter_append, filter_insertLinebreaks (by decide) fun c hc => by simp [(alphabet_plain c (hgroups c hc)).1],
      filter_eq_self.mpr fun c hc => by simp [hplain c hc], base64Text, htail, append_assoc]
  · intro c hc
    rcases mem_append.mp hc with hc | hc
    · exact (mem_insertLinebreaks hc).imp_left fun hc => (alphabet_plain c (hgroups c hc)).1
    · exact .inl (hplain c hc)
  · cases hg : encodeGroups (src.take (lenRoundedDown src)) with
    | nil =>
      obtain ⟨c, rest, hcons⟩ := exists_cons_of_ne_nil (hsome hg)
      exact ⟨c, rest, by rw [insertLinebreaks, nil_append, hcons], (htailPlain c (by simp [hcons])).1⟩
    | cons c g =>
      refine ⟨c, _, by rw [insertLinebreaks, if_neg (by decide)]; rfl, ?_⟩
      rintro rfl
      exact absurd (alphabet_plain _ (hgroups '\n' (by simp [hg]))).1 (by decide)
  · rw [append_assoc]
    by_cases hnonempty : tailFront ++ padding src = []
    · rw [hnonempty, append_nil, getLast?_insertLinebreaks]
      have hgne : encodeGroups (src.take (lenRoundedDown src)) ≠ [] := fun hnil => hsome hnil hnonempty
      refine ⟨_, getLast?_eq_some_getLast hgne, ?_⟩
      exact (alphabet_plain _ (hgroups _ (getLast_mem hgne))).2.2.1
    · rw [getLast?_append_of_ne_nil _ hnonempty]
      exact ⟨_, getLast?_eq_some_getLast hnonempty, (htailPlain _ (getLast_mem hnonempty)).2⟩

end Str

namespace Boost

section Length

variable {src : Str}

theorem lenRoundedDown_eq (hsrc : src.length < 4294967298) : lenRoundedDown src = Str.lenRoundedDown src := by
  rw [lenRoundedDown, oneThirdLen, Str.lenRoundedDown]
  omega

theorem length_drop_of_short (hsrc : src.length < 4294967298) :
    (src.drop (lenRoundedDown src)).length = src.length % 3 := by
  rw [lenRoundedDown_eq hsrc, length_drop, Str.lenRoundedDown]
  omega

theorem length_drop_of_long (hsrc : 4294967298 ≤ src.length) : 4 < (src.drop (lenRoundedDown src)).length := by
  rw [length_drop, lenRoundedDown, oneThirdLen]
  omega

theorem lenRoundedDown_ne (hrest : (src.drop (lenRoundedDown src)).length ≠ 0) : lenRoundedDown src ≠ src.length := by
  intro heq
  rw [length_drop, heq] at hrest
  omega

end Length

theorem cStr_encodeGroups (src : Str) : Str.cStr (Str.encodeGroups src) = Str.encodeGroups src :=
  Str.cStr_eq_self_iff.mpr fun hmem => (Str.alphabet_plain _ (Str.mem_alphabet_of_mem_encodeGroups hmem)).2.2.2 rfl

theorem tailbase_eq {a b c d : Char} {i : Nat} (hi : 1 ≤ i) (hlt : i < 3) :
    tailbase [a, b, c, d] i = .ok ([a, b, c, d].take (i + 1) ++ replicate (3 - i) '=' ++ ['\x00']) := by
  obtain rfl | rfl : i = 1 ∨ i = 2 := by omega
  · rfl
  · rfl

theorem encodeRest_eq {lines : Str → Str} (hlines : ∀ a b c d, lines [a, b, c, d] = [a, b, c, d]) {rest : Str}
    (hne : rest ≠ []) (hlt : rest.length < 3) : encodeRest lines rest = .ok (Str.encodeTail rest) := by
  have hpos := length_pos_iff.mpr hne
  have htail : (rest ++ replicate (4 - rest.length) '\x00').take 3 = (rest ++ ['\x00', '\x00']).take 3 := by
    obtain h | h : rest.length = 1 ∨ rest.length = 2 := by omega
    · simp [h, take_append]
    · simp [h, take_append]
  obtain ⟨a, b, c, d, hgroup⟩ : ∃ a b c d, Str.encodeGroups ((rest ++ ['\x00', '\x00']).take 3) = [a, b, c, d] := by
    have hlength : (Str.encodeGroups ((rest ++ ['\x00', '\x00']).take 3)).length = 4 := by
      simp only [Str.encodeGroups, length_map, length_sextets, length_take, length_append, length_cons, length_nil]
      omega
    exact length_eq_four.mp hlength
  obtain ⟨front, hfront, _, halphabet⟩ := Str.encodeTail_eq hne hlt
  have hplain : '\x00' ∉ Str.encodeTail rest := by
    intro hc
    rw [hfront] at hc
    rcases mem_append.mp hc with hc | hc
    · exact (Str.alphabet_plain _ (halphabet _ hc)).2.2.2 rfl
    · exact absurd (eq_of_mem_replicate hc) (by decide)
  have hencode : Str.encodeTail rest = [a, b, c, d].take (rest.length + 1) ++ replicate (3 - rest.length) '=' := by
    rw [Str.encodeTail, if_neg hne, hgroup]
  have hdata : Str.cStr (Str.encodeTail rest ++ ['\x00']) = Str.encodeTail rest := by
    rw [Str.cStr_append_of_not_mem hplain]
    exact append_nil _
  rw [encodeRest, tail, if_neg (by omega)]
  show (do let tailbase ← tailbase (lines (Str.encodeGroups ((rest ++ _).take 3))) rest.length; return Str.cStr tailbase) = _
  rw [htail, hgroup, hlines, tailbase_eq hpos hlt, ← hencode]
  exact congrArg ok hdata

theorem insertLinebreaks_four {n : Nat} (hn : 4 ≤ n) (a b c d : Char) :
    Str.insertLinebreaks n 0 [a, b, c, d] = [a, b, c, d] := by
  simp [Str.insertLinebreaks, show ¬ 0 = n by omega, show ¬ 1 = n by omega, show ¬ 2 = n by omega, show ¬ 3 = n by omega]

section Encoders

variable {src : Str}

theorem drop_eq_nil_of_short (hsrc : src.length < 4294967298) (heq : lenRoundedDown src = src.length) :
    Str.encodeTail (src.drop (Str.lenRoundedDown src)) = [] := by
  rw [← lenRoundedDown_eq hsrc, heq, drop_length, Str.encodeTail_nil]

theorem encodeRest_drop (hsrc : src.length < 4294967298) (hne : lenRoundedDown src ≠ src.length) {lines : Str → Str}
    (hlines : ∀ a b c d, lines [a, b, c, d] = [a, b, c, d]) :
    encodeRest lines (src.drop (lenRoundedDown src)) = .ok (Str.encodeTail (src.drop (Str.lenRoundedDown src))) := by
  have hlength := length_drop_of_short hsrc
  rw [lenRoundedDown_eq hsrc] at hlength hne ⊢
  apply encodeRest_eq hlines
  · intro hnil
    have hle := drop_eq_nil_iff.mp hnil
    rw [Str.lenRoundedDown] at hle hne
    omega
  · omega

theorem base64Encode_eq (hsrc : src.length < 4294967298) : base64Encode src = .ok (Str.base64Text src) := by
  rw [base64Encode, cStr_encodeGroups, Str.base64Text]
  by_cases hwhole : lenRoundedDown src = src.length
  · rw [drop_eq_nil_of_short hsrc hwhole, if_neg (not_not.mpr hwhole), lenRoundedDown_eq hsrc, append_nil]
    rfl
  · rw [if_pos hwhole, encodeRest_drop hsrc hwhole fun _ _ _ _ => rfl, lenRoundedDown_eq hsrc]
    rfl

theorem base64EncodeLines_eq {n : Nat} (hn : 4 ≤ n) (hsrc : src.length < 4294967298) :
    base64EncodeLines n src = .ok (Str.base64TextLines n src) := by
  rw [base64EncodeLines, Str.base64TextLines]
  by_cases hwhole : lenRoundedDown src = src.length
  · rw [drop_eq_nil_of_short hsrc hwhole, if_neg (not_not.mpr hwhole), lenRoundedDown_eq hsrc, append_nil]
    rfl
  · rw [if_pos hwhole, encodeRest_drop hsrc hwhole (insertLinebreaks_four hn), lenRoundedDown_eq hsrc]
    rfl

theorem base64Encode_of_long (hsrc : 4294967298 ≤ src.length) : base64Encode src = .error .undefined := by
  have hrest := length_drop_of_long hsrc
  rw [base64Encode, if_pos (lenRoundedDown_ne (by omega)), encodeRest, tail, if_pos hrest]
  rfl

theorem base64EncodeLines_of_long {n : Nat} (hsrc : 4294967298 ≤ src.length) :
    base64EncodeLines n src = .error .undefined := by
  have hrest := length_drop_of_long hsrc
  rw [base64EncodeLines, if_pos (lenRoundedDown_ne (by omega)), encodeRest, tail, if_pos hrest]
  rfl

end Encoders

example : base64Encode "M1".toList = .ok "TTE=".toList := rfl

end Boost

end Avbot
