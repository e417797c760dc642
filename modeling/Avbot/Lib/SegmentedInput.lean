import Mathlib.Data.List.Basic
import Mathlib.Data.List.Infix

/-!
# Input that arrives in pieces

A peer sends one sequence of elements, and the network hands it over in pieces. A reader that waits for its buffer to hold what it wants takes whole pieces; one with a bounded buffer takes the front of a piece. What is read and what is left make up the input.
-/

namespace SegmentedInput

open List Option

variable {α : Type*}

/-- Append pieces to the buffer until `done` holds of it, if it ever does. -/
def readUntil (done : List α → Bool) (buf : List α) : List (List α) → Option (List α × List (List α))
  | [] => if done buf then some (buf, []) else none
  | seg :: segs => if done buf then some (buf, seg :: segs) else readUntil done (buf ++ seg) segs

theorem prefix_append_cases {front l₁ l₂ : List α} (hfront : front <+: l₁ ++ l₂) :
    (front <+: l₁ ∧ front ≠ l₁) ∨ ∃ more, front = l₁ ++ more ∧ more <+: l₂ := by
  rcases prefix_or_prefix_of_prefix hfront (prefix_append l₁ l₂) with hshort | ⟨more, rfl⟩
  · by_cases heq : front = l₁
    · exact .inr ⟨[], by simp [heq], nil_prefix⟩
    · exact .inl ⟨hshort, heq⟩
  · exact .inr ⟨more, rfl, (prefix_append_right_inj l₁).mp hfront⟩

variable {done : List α → Bool} {buf got : List α} {segs rest : List (List α)}

theorem readUntil_of_done (hdone : done buf = true) (segs : List (List α)) :
    readUntil done buf segs = some (buf, segs) := by
  cases segs <;> simp [readUntil, hdone]

theorem readUntil_cons_of_not_done (hdone : done buf = false) (seg : List α) (segs : List (List α)) :
    readUntil done buf (seg :: segs) = readUntil done (buf ++ seg) segs := by
  simp [readUntil, hdone]

section

variable (hread : readUntil done buf segs = some (got, rest))

include hread

theorem readUntil_eq_some : done got = true ∧ ∃ pre, segs = pre ++ rest ∧ got = buf ++ pre.flatten := by
  induction segs generalizing buf with
  | nil =>
    cases hdone : done buf with
    | false => simp [readUntil, hdone] at hread
    | true =>
      rw [readUntil_of_done hdone] at hread
      obtain ⟨rfl, rfl⟩ := Prod.mk.inj (some.inj hread)
      exact ⟨hdone, [], rfl, by simp⟩
  | cons seg segs ih =>
    cases hdone : done buf with
    | false =>
      grind [readUntil_cons_of_not_done]
    | true =>
      rw [readUntil_of_done hdone] at hread
      obtain ⟨rfl, rfl⟩ := Prod.mk.inj (some.inj hread)
      exact ⟨hdone, [], rfl, by simp⟩

theorem append_flatten_of_readUntil : got ++ rest.flatten = buf ++ segs.flatten := by
  obtain ⟨_, pre, hsegs, hgot⟩ := readUntil_eq_some hread
  grind

theorem rest_longest_of_readUntil
    {pre post : List (List α)} (hsegs : segs = pre ++ post) (hdone : done (buf ++ pre.flatten) = true) :
    post <:+ rest := by
  induction segs generalizing buf pre with
  | nil =>
    obtain ⟨rfl, rfl⟩ := nil_eq_append_iff.mp hsegs
    exact nil_suffix
  | cons seg segs ih =>
    cases hbuf : done buf with
    | true =>
      grind [readUntil_of_done]
    | false =>
      rw [readUntil_cons_of_not_done hbuf] at hread
      cases pre with
      | nil => simp [hbuf] at hdone
      | cons seg' pre =>
        grind

end

theorem readUntil_isSome (hdone : done (buf ++ segs.flatten) = true) :
    ∃ got rest, readUntil done buf segs = some (got, rest) := by
  induction segs generalizing buf with
  | nil => exact ⟨buf, [], readUntil_of_done (by simpa using hdone) []⟩
  | cons seg segs ih =>
    grind [readUntil_of_done, readUntil_cons_of_not_done]

theorem readUntil_eq_some_iff (hmono : ∀ l m, done l = true → done (l ++ m) = true) (hbuf : done buf = false) :
    readUntil done buf segs = some (got, rest) ↔
      ∃ pre, segs = pre ++ rest ∧ got = buf ++ pre.flatten ∧ done got = true ∧
        done (buf ++ pre.dropLast.flatten) = false := by
  constructor
  · intro hread
    obtain ⟨hgot, pre, hsegs, hpre⟩ := readUntil_eq_some hread
    refine ⟨pre, hsegs, hpre, hgot, ?_⟩
    cases pre using List.reverseRecOn with
    | nil => simpa using hbuf
    | append_singleton pre seg =>
      rw [dropLast_concat]
      by_contra hdone
      have hsplit : segs = pre ++ (seg :: rest) := by rw [hsegs]; simp
      have hlength := (rest_longest_of_readUntil hread hsplit (by simpa using hdone)).length_le
      rw [length_cons] at hlength
      omega
  · rintro ⟨pre, hsegs, hpre, hgot, hlast⟩
    have hwhole : done (buf ++ segs.flatten) = true := by
      grind
    obtain ⟨got', rest', hread⟩ := readUntil_isSome hwhole
    obtain ⟨hgot', pre', hsegs', hpre'⟩ := readUntil_eq_some hread
    obtain ⟨more, hmore⟩ := rest_longest_of_readUntil hread hsegs (hpre ▸ hgot)
    have hpre : pre = pre' ++ more := by
      have happend : pre ++ rest = (pre' ++ more) ++ rest := by
        rw [← hsegs, hsegs', ← hmore, append_assoc]
      exact append_cancel_right happend
    cases more using List.reverseRecOn with
    | nil =>
      grind
    | append_singleton more seg =>
      -- a front that is longer than needed could do without its last piece
      grind

theorem readUntil_least [DecidableEq α] (hread : readUntil done buf segs = some (got, rest))
    (hmono : ∀ l m, done l = true → done (l ++ m) = true) (hempty : done [] = false) :
    ∃ pre, (if buf = [] then segs else buf :: segs) = pre ++ rest ∧ pre.flatten = got ∧ done pre.dropLast.flatten = false := by
  cases hbuf : done buf with
  | true =>
    have hne : buf ≠ [] := by
      rintro rfl
      simp [hempty] at hbuf
    rw [readUntil_of_done hbuf] at hread
    obtain ⟨rfl, rfl⟩ := Prod.mk.inj (some.inj hread)
    exact ⟨[buf], by rw [if_neg hne]; rfl, by simp, hempty⟩
  | false =>
    obtain ⟨pre, hsegs, hgot, hdone, hlast⟩ := (readUntil_eq_some_iff hmono hbuf).mp hread
    by_cases hne : buf = []
    · grind
    · refine ⟨buf :: pre, by rw [if_neg hne, hsegs]; rfl, by rw [hgot]; rfl, ?_⟩
      cases pre with
      | nil => exact hempty
      | cons seg pre => exact hlast

def readExactly : Nat → List (List α) → List α × List (List α)
  | _, [] => ([], [])
  | n, seg :: segs =>
    if n < seg.length then (seg.take n, seg.drop n :: segs)
    else
      let (got, rest) := readExactly (n - seg.length) segs
      (seg ++ got, rest)

theorem fst_readExactly (n : Nat) (segs : List (List α)) : (readExactly n segs).1 = segs.flatten.take n := by
  induction segs generalizing n with
  | nil => simp [readExactly]
  | cons seg segs ih =>
    rw [readExactly, flatten_cons, take_append]
    split
    case isTrue hn => rw [Nat.sub_eq_zero_of_le hn.le, take_zero, append_nil]
    case isFalse hn =>
      show seg ++ (readExactly (n - seg.length) segs).1 = _
      rw [ih, take_of_length_le (l := seg) (by omega)]

def dropped (n : Nat) (segs : List (List α)) : List (List α) := (readExactly n segs).2

theorem dropped_nil (n : Nat) : dropped n ([] : List (List α)) = [] := rfl

theorem dropped_cons (n : Nat) (seg : List α) (segs : List (List α)) :
    dropped n (seg :: segs) = if n < seg.length then seg.drop n :: segs else dropped (n - seg.length) segs := by
  rw [dropped, readExactly]
  split <;> rfl

theorem dropped_zero {segs : List (List α)} (hne : ∀ seg ∈ segs, seg ≠ []) : dropped 0 segs = segs := by
  cases segs with
  | nil => rfl
  | cons seg segs =>
    rw [dropped_cons, if_pos (length_pos_iff.mpr (hne seg mem_cons_self)), drop_zero]

theorem flatten_dropped (n : Nat) (segs : List (List α)) : (dropped n segs).flatten = segs.flatten.drop n := by
  induction segs generalizing n with
  | nil => rw [dropped_nil, flatten_nil, drop_nil]
  | cons seg segs ih =>
    rw [dropped_cons, flatten_cons, drop_append]
    by_cases hn : n < seg.length
    · rw [if_pos hn, Nat.sub_eq_zero_of_le hn.le, drop_zero, flatten_cons]
    · have hseg : seg.drop n = [] := drop_eq_nil_of_le (by omega)
      rw [if_neg hn, ih, hseg, nil_append]

theorem dropped_add (m n : Nat) (segs : List (List α)) : dropped (m + n) segs = dropped n (dropped m segs) := by
  induction segs generalizing m with
  | nil => rfl
  | cons seg segs ih =>
    rw [dropped_cons, dropped_cons]
    by_cases hm : m < seg.length
    · rw [if_pos hm, dropped_cons, length_drop, drop_drop]
      grind
    · grind

theorem dropped_append {n : Nat} {pre rest : List (List α)} (hrest : ∀ seg ∈ rest, seg ≠ []) (hpos : 0 < n)
    (henough : n ≤ pre.flatten.length) (hleast : pre.dropLast.flatten.length < n) :
    dropped n (pre ++ rest) = if pre.flatten.drop n = [] then rest else pre.flatten.drop n :: rest := by
  induction pre generalizing n with
  | nil =>
    rw [flatten_nil, length_nil] at henough
    omega
  | cons seg pre ih =>
    rw [flatten_cons, length_append] at henough
    rw [cons_append, dropped_cons, flatten_cons]
    cases pre with
    | nil =>
      grind [dropped_zero]
    | cons seg' pre =>
      rw [dropLast_cons_cons, flatten_cons, length_append] at hleast
      have hseg : seg.drop n = [] := drop_eq_nil_of_le (by omega)
      rw [if_neg (by omega), ih (by omega) (by omega) (by omega), drop_append, hseg, nil_append]

/-- What the piece that completes the first `n` elements brings beyond them. -/
def overshoot : Nat → List (List α) → Nat
  | _, [] => 0
  | n, seg :: segs => if n ≤ seg.length then seg.length - n else overshoot (n - seg.length) segs

theorem overshoot_append {n : Nat} {pre : List (List α)} (hpos : 0 < n) (henough : n ≤ pre.flatten.length)
    (hleast : pre.dropLast.flatten.length < n) (rest : List (List α)) :
    overshoot n (pre ++ rest) = pre.flatten.length - n := by
  induction pre generalizing n with
  | nil =>
    grind
  | cons seg pre ih =>
    rw [flatten_cons, length_append] at henough
    rw [cons_append, overshoot, flatten_cons, length_append]
    cases pre with
    | nil => rw [if_pos (by simpa using henough)]; simp
    | cons seg' pre =>
      grind

@[ext]
structure Pending (α : Type*) where
  segs : List (List α)
  nonempty : ∀ seg ∈ segs, seg ≠ []

namespace Pending

def content (p : Pending α) : List α := p.segs.flatten

/-- The next piece, or its front if it is longer than `n`. -/
def read (p : Pending α) (n : Nat) : Option (List α × Pending α) :=
  match p with
  | ⟨[], _⟩ => none
  | ⟨seg :: segs, hne⟩ =>
    if hlong : n < seg.length then
      some (seg.take n, ⟨seg.drop n :: segs, by
        rintro seg' (_ | ⟨_, hmem⟩)
        · simpa using hlong
        · exact hne seg' (mem_cons_of_mem seg hmem)⟩)
    else some (seg, ⟨segs, fun seg' hmem => hne seg' (mem_cons_of_mem seg hmem)⟩)

variable {p p' : Pending α}

theorem read_nil (hsegs : p.segs = []) (n : Nat) : p.read n = none := by
  obtain ⟨segs, hne⟩ := p
  obtain rfl : segs = [] := hsegs
  rfl

theorem read_cons {seg : List α} {segs : List (List α)} (hsegs : p.segs = seg :: segs) (n : Nat) :
    ∃ p', p.read n = some (seg.take n, p') ∧ p'.segs = if seg.length ≤ n then segs else seg.drop n :: segs := by
  obtain ⟨segs', hne⟩ := p
  obtain rfl : segs' = seg :: segs := hsegs
  rw [read]
  by_cases hlong : n < seg.length
  · rw [dif_pos hlong, if_neg (by omega)]
    exact ⟨_, rfl, rfl⟩
  · rw [dif_neg hlong, if_pos (by omega), take_of_length_le (by omega)]
    exact ⟨_, rfl, rfl⟩

def nil : Pending α := ⟨[], by simp⟩

def append (p q : Pending α) : Pending α :=
  ⟨p.segs ++ q.segs, fun seg hseg => (mem_append.mp hseg).elim (p.nonempty seg) (q.nonempty seg)⟩

/-- Append pieces to the buffer until `done` holds of it, if it ever does. -/
def readUntil (done : List α → Bool) (buf : List α) (p : Pending α) : Option (List α × Pending α) :=
  match hread : SegmentedInput.readUntil done buf p.segs with
  | none => none
  | some (got, rest) => some (got, ⟨rest, fun seg hseg => by
    obtain ⟨-, pre, hsegs, -⟩ := readUntil_eq_some hread
    exact p.nonempty seg (by rw [hsegs]; exact mem_append_right pre hseg)⟩)

theorem readUntil_isSome (done : List α → Bool) (buf : List α) (p : Pending α) (hdone : done (buf ++ p.content) = true) :
    ∃ got p', p.readUntil done buf = some (got, p') := by
  obtain ⟨got, rest, hread⟩ := SegmentedInput.readUntil_isSome hdone
  rw [readUntil]
  split
  case h_1 hnone =>
    rw [hread] at hnone
    cases hnone
  case h_2 got rest hsome => exact ⟨got, _, rfl⟩

theorem readUntil_segs {done : List α → Bool} {buf got : List α}
    (hread : p.readUntil done buf = some (got, p')) : SegmentedInput.readUntil done buf p.segs = some (got, p'.segs) := by
  rw [readUntil] at hread
  grind

theorem readUntil_spec {done : List α → Bool} {buf got : List α}
    (hread : p.readUntil done buf = some (got, p')) : done got = true ∧ buf ++ p.content = got ++ p'.content :=
  have hsegs := readUntil_segs hread
  ⟨(readUntil_eq_some hsegs).1, (append_flatten_of_readUntil hsegs).symm⟩

end Pending

end SegmentedInput
