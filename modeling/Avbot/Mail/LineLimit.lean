import Avbot.Mail.ImfLines

/-!
# The limit of a line

`checked_newline_append` finds the length of the last line with unsigned numbers, which wrap around where there is no line break and where the text ends with one. A text that is put together from pieces of at most 77 characters has no line of more than 78.
-/

namespace Avbot

open List Nat Option
open Str (crlf sizeLimit)

/-- The lines of a text, which end with CRLF. -/
def Str.crlfLines : Str → List Str
  | [] => [[]]
  | '\r' :: '\n' :: s => [] :: crlfLines s
  | c :: s => (crlfLines s).modifyHead (c :: ·)

namespace Imf

variable {out line add s : Str}

theorem crlfLines_cons {c : Char} (hc : c ≠ '\r') (s : Str) :
    Str.crlfLines (c :: s) = s.crlfLines.modifyHead (c :: ·) := by
  rw [Str.crlfLines]
  intro t heq
  exact absurd heq hc

theorem OneLine.cons {c : Char} (h : OneLine (c :: line)) : c ≠ '\r' ∧ OneLine line :=
  ⟨fun heq => h.1 (heq ▸ mem_cons_self), fun hr => h.1 (mem_cons_of_mem _ hr), fun hn => h.2 (mem_cons_of_mem _ hn)⟩

theorem crlfLines_append (hline : OneLine line) (s : Str) : (line ++ (crlf ++ s)).crlfLines = line :: s.crlfLines := by
  induction line with
  | nil => rfl
  | cons c line ih =>
    rw [cons_append, crlfLines_cons hline.cons.1, ih hline.cons.2]
    rfl

theorem crlfLines_single (hline : OneLine line) : line.crlfLines = [line] := by
  induction line with
  | nil => rfl
  | cons c line ih =>
    rw [crlfLines_cons hline.cons.1, ih hline.cons.2]
    rfl

theorem lastNewline_lt {pos : Nat} (h : lastNewline out = some pos) : pos < out.length := by
  rw [lastNewline] at h
  split at h
  · rename_i hany
    obtain ⟨c, hc, -⟩ := any_eq_true.mp hany
    have := length_pos_of_mem hc
    have := some.inj h
    omega
  · cases h

theorem sub_wrap {limit n k : Nat} (hn : n < limit) : (n + limit - k % limit) % limit =
    if n < k % limit then n + limit - k % limit else n - k % limit := by
  split
  · exact mod_eq_of_lt (by omega)
  · rw [show n + limit - k % limit = n - k % limit + limit by omega, add_mod_right, mod_eq_of_lt (by omega)]

/-- The length in the numbers of `size_t`, where `npos` is the last one. -/
theorem lineLength_mod (hsize : out.length + 1 < sizeLimit) (add : Str) :
    let pos := (lastNewline out).getD (sizeLimit - 1)
    let xpos := if pos = 0 then out.length else (out.length + sizeLimit - (pos + 2) % sizeLimit) % sizeLimit
    lineLength out add % sizeLimit = (xpos + add.length) % sizeLimit := by
  simp only [sub_wrap (lt_of_succ_lt hsize)]
  rw [lineLength]
  cases hlast : lastNewline out with
  | none =>
    have hone : (sizeLimit - 1 + 2) % sizeLimit = 1 := rfl
    have hlast : sizeLimit - 1 ≠ 0 := by decide
    rw [getD_none, hone, if_neg hlast]
    show (if out = [] then _ else _) % _ = _
    by_cases hnil : out = []
    · rw [if_pos hnil, if_pos (by simp [hnil]), hnil, mod_mod]
      rfl
    · have := length_pos_iff.mpr hnil
      rw [if_neg hnil, if_neg (by omega)]
  | some pos =>
    have hpos := lastNewline_lt hlast
    cases pos with
    | zero => rfl
    | succ pos =>
      have hwrap : (pos + 1 + 2) % sizeLimit = pos + 3 := mod_eq_of_lt (by omega)
      rw [getD_some, if_neg pos.succ_ne_zero, hwrap]
      show (if _ < pos + 3 then _ else _) % _ = _
      split
      · rw [mod_mod]
        congr 2
        omega
      · rfl

/-- Lines of at most 78 characters. The last one is empty only as long as there is nothing. -/
def WithinLimit (out : Str) : Prop :=
  ∃ done line, out = flatMap (· ++ crlf) done ++ line ∧ (∀ l ∈ line :: done, OneLine l ∧ l.length ≤ 78) ∧ (line = [] → done = [])

theorem WithinLimit.length_le (h : WithinLimit out) : ∀ l ∈ out.crlfLines, l.length ≤ 78 := by
  obtain ⟨done, line, rfl, hlines, -⟩ := h
  obtain ⟨hline, hdone⟩ := forall_mem_cons.mp hlines
  clear hlines
  induction done with
  | nil => simpa [crlfLines_single hline.1] using hline.2
  | cons l done ih =>
    obtain ⟨hl, hrest⟩ := forall_mem_cons.mp hdone
    rw [flatMap_cons, append_assoc, append_assoc, crlfLines_append hl.1]
    exact forall_mem_cons.mpr ⟨hl.2, ih hrest⟩

theorem checkedNewlineAppend_nil (hadd : add ≠ []) (hlength : add.length ≤ 77) : checkedNewlineAppend [] add = add := by
  have hpos := length_pos_iff.mpr hadd
  have hline : lineLength [] add = add.length - 1 := by
    show (18446744073709551616 - 1 + add.length) % 18446744073709551616 = _
    omega
  rw [checkedNewlineAppend, hline, if_neg (by omega), nil_append]

theorem WithinLimit.append (h : WithinLimit out) (hadd : OneLine add) (hlength : add.length ≤ 77) :
    WithinLimit (checkedNewlineAppend out add) := by
  obtain ⟨done, line, rfl, hlines, hempty⟩ := h
  obtain ⟨⟨hone, hle⟩, hdone⟩ := forall_mem_cons.mp hlines
  by_cases hline : line = []
  · obtain rfl := hline
    obtain rfl := hempty rfl
    by_cases hnil : add = []
    · obtain rfl := hnil
      exact ⟨[[]], ['\t'], by decide, by decide, by simp⟩
    · exact ⟨[], add, checkedNewlineAppend_nil hnil hlength, by simp [hadd]; omega, fun _ => rfl⟩
  · have hends : flatMap (· ++ crlf) done = [] ∨ ∃ d, flatMap (· ++ crlf) done = d ++ crlf := by
      rcases eq_nil_or_concat done with rfl | ⟨done, l, rfl⟩
      · exact .inl rfl
      · exact .inr ⟨flatMap (· ++ crlf) done ++ l, by simp⟩
    rw [checkedNewlineAppend_eq hends hone hline]
    split
    · refine ⟨done ++ [line], '\t' :: add, by simp, ?_, by simp⟩
      refine forall_mem_cons.mpr ⟨⟨⟨by simpa using hadd.1, by simpa using hadd.2⟩, by simp; omega⟩, ?_⟩
      exact forall_mem_append.mpr ⟨hdone, forall_mem_singleton.mpr ⟨hone, hle⟩⟩
    · refine ⟨done, line ++ add, rfl, forall_mem_cons.mpr ⟨⟨⟨?_, ?_⟩, ?_⟩, hdone⟩, by simp [hline]⟩
      · simp [hone.1, hadd.1]
      · simp [hone.2, hadd.2]
      · have := length_pos_iff.mpr hline
        rw [length_append]
        omega

/-- However the pieces are appended, no line has more than 78 characters. -/
theorem length_le_of_checkedNewlineAppend {start : Str} (hstart : OneLine start) (hlength : start.length ≤ 78) {adds : List Str}
    (hadds : ∀ add ∈ adds, OneLine add ∧ add.length ≤ 77) :
    ∀ line ∈ (adds.foldl checkedNewlineAppend start).crlfLines, line.length ≤ 78 := by
  apply WithinLimit.length_le
  have hwithin : WithinLimit start := ⟨[], start, rfl, by simpa using ⟨hstart, hlength⟩, fun _ => rfl⟩
  clear hstart hlength
  induction adds generalizing start with
  | nil => exact hwithin
  | cons add adds ih =>
    obtain ⟨hadd, hrest⟩ := forall_mem_cons.mp hadds
    exact ih hrest (hwithin.append hadd.1 hadd.2)

/-- Two pieces that do not fit into one line. -/
theorem length_le_of_checkedNewlineAppend_broken :
    let out := [replicate 40 'a', replicate 40 'b'].foldl checkedNewlineAppend "subject: ".toList
    out.crlfLines = ["subject: ".toList ++ replicate 40 'a', '\t' :: replicate 40 'b'] ∧
      ∀ line ∈ out.crlfLines, line.length ≤ 78 :=
  ⟨by decide, length_le_of_checkedNewlineAppend (by decide) (by decide) (by decide)⟩

end Imf

end Avbot
