import Mathlib.Data.List.Basic

/-!
# Dialogues over a connection

A script sends messages and reads a given number of symbols at a time. The link is the other side: what it has been sent, what it still has to say, and which calls fail. An error ends the dialogue; only an attempt goes on with what it has got. `Goes` is the course of a dialogue in which nothing fails, whatever the link.
-/

namespace Dialogue

open List Option Nat

inductive Script (α ρ : Type) where
  | done (result : ρ)
  | send (message : List α) (next : Script α ρ)
  | expect (n : Nat) (next : List α → Script α ρ)
  /-- A read whose error is not looked at. -/
  | attempt (n : Nat) (next : List α → Script α ρ)

structure Link (α ε : Type) where
  sent : List (List α)
  unread : List α
  /-- The error of a read after the last symbol, if the peer does not stay silent. -/
  ending : Option ε
  /-- The error of a write, by the number of writes before it. -/
  writes : Nat → Option ε

namespace Script

variable {α ε ρ : Type} (fails : ε → ρ)

/-- The result, or none if a read waits. -/
def run : Script α ρ → Link α ε → Option ρ × Link α ε
  | done result, l => (some result, l)
  | send message next, l =>
    match l.writes l.sent.length with
    | none => next.run { l with sent := l.sent ++ [message] }
    | some e => (some (fails e), { l with sent := l.sent ++ [message] })
  | expect n next, l =>
    if n ≤ l.unread.length then (next (l.unread.take n)).run { l with unread := l.unread.drop n }
    else (l.ending.map fails, { l with unread := [] })
  | attempt n next, l =>
    if n ≤ l.unread.length ∨ l.ending.isSome then (next (l.unread.take n)).run { l with unread := l.unread.drop n }
    else (none, { l with unread := [] })

def Goes : Script α ρ → ρ → List (List α) → List α → Prop
  | done result', result, sent, heard => result' = result ∧ sent = [] ∧ heard = []
  | send message next, result, sent, heard => ∃ sent', sent = message :: sent' ∧ next.Goes result sent' heard
  | expect n next, result, sent, heard | attempt n next, result, sent, heard =>
    ∃ answer rest, answer.length = n ∧ heard = answer ++ rest ∧ (next answer).Goes result sent rest

def Strict : Script α ρ → Prop
  | done _ => True
  | send _ next => next.Strict
  | expect _ next => ∀ answer, (next answer).Strict
  | attempt _ _ => False

/-- The message is sent on the way, to a peer that says `heard`. -/
def Says (message : List α) : Script α ρ → List α → Prop
  | done _, _ => False
  | send message' next, heard => message = message' ∨ next.Says message heard
  | expect n next, heard => n ≤ heard.length ∧ (next (heard.take n)).Says message (heard.drop n)
  | attempt n next, heard => (next (heard.take n)).Says message (heard.drop n)

variable {fails} {s : Script α ρ} {result : ρ} {l l' : Link α ε} {sent : List (List α)} {heard rest : List α}

theorem run_of_goes (hgoes : s.Goes result sent heard) (hunread : l.unread = heard ++ rest)
    (hwrites : ∀ i < sent.length, l.writes (l.sent.length + i) = none) :
    s.run fails l = (some result, { l with sent := l.sent ++ sent, unread := rest }) := by
  induction s generalizing sent heard l with
  | done result' =>
    obtain ⟨rfl, rfl, rfl⟩ := hgoes
    rw [run, append_nil, ← show l.unread = rest from hunread]
  | send message next ih =>
    obtain ⟨sent', rfl, hgoes⟩ := hgoes
    have hwrite : l.writes l.sent.length = none := hwrites 0 (succ_pos _)
    rw [run, hwrite, append_cons l.sent message sent']
    refine ih (l := { l with sent := l.sent ++ [message] }) hgoes hunread fun i hi => ?_
    have hnext := hwrites (i + 1) (succ_lt_succ hi)
    rwa [length_append, length_singleton, Nat.add_assoc, Nat.add_comm 1 i]
  | expect n next ih =>
    obtain ⟨answer, tail, rfl, rfl, hgoes⟩ := hgoes
    rw [append_assoc] at hunread
    rw [run, hunread, if_pos (by simp), take_left, drop_left]
    exact ih answer hgoes rfl hwrites
  | attempt n next ih =>
    obtain ⟨answer, tail, rfl, rfl, hgoes⟩ := hgoes
    rw [append_assoc] at hunread
    rw [run, hunread, if_pos (.inl (by simp)), take_left, drop_left]
    exact ih answer hgoes rfl hwrites

/-- A dialogue without attempts ends with a result that no error gives only if nothing fails. -/
theorem goes_of_run (hstrict : s.Strict) (hresult : ∀ e, fails e ≠ result) (hrun : s.run fails l = (some result, l')) :
    ∃ sent heard rest, s.Goes result sent heard ∧ l.unread = heard ++ rest ∧
      (∀ i < sent.length, l.writes (l.sent.length + i) = none) ∧
      l' = { l with sent := l.sent ++ sent, unread := rest } := by
  induction s generalizing l with
  | done result' =>
    obtain ⟨hend, rfl⟩ := Prod.mk.inj hrun
    exact ⟨[], [], l.unread, ⟨some.inj hend, rfl, rfl⟩, rfl, fun i hi => absurd hi (not_lt_zero i), by simp⟩
  | send message next ih =>
    rw [run] at hrun
    cases hwrite : l.writes l.sent.length with
    | none =>
      rw [hwrite] at hrun
      obtain ⟨sent, heard, rest, hgoes, hunread, hwrites, rfl⟩ := ih hstrict hrun
      refine ⟨message :: sent, heard, rest, ⟨sent, rfl, hgoes⟩, hunread, fun i hi => ?_, by simp⟩
      cases i with
      | zero => exact hwrite
      | succ i =>
        have hnext := hwrites i (lt_of_succ_lt_succ hi)
        rwa [length_append, length_singleton, Nat.add_assoc, Nat.add_comm 1 i] at hnext
    | some e =>
      rw [hwrite] at hrun
      exact absurd (some.inj (Prod.mk.inj hrun).1) (hresult e)
  | expect n next ih =>
    rw [run] at hrun
    split_ifs at hrun with hlong
    · obtain ⟨sent, heard, rest, hgoes, hunread, hwrites, rfl⟩ := ih _ (hstrict _) hrun
      refine ⟨sent, _, rest, ⟨l.unread.take n, heard, length_take_of_le hlong, rfl, hgoes⟩, ?_, hwrites, rfl⟩
      rw [append_assoc, ← show l.unread.drop n = heard ++ rest from hunread, take_append_drop]
    · obtain ⟨e, -, hend⟩ := map_eq_some_iff.mp (Prod.mk.inj hrun).1
      exact absurd hend (hresult e)
  | attempt n next ih => exact hstrict.elim

theorem says_of_mem_sent {message : List α} (h : message ∈ (s.run fails l).2.sent) :
    message ∈ l.sent ∨ s.Says message l.unread := by
  induction s generalizing l with
  | done result => exact .inl h
  | send message' next ih =>
    have hpushed : message ∈ l.sent ++ [message'] → message ∈ l.sent ∨ message = message' := by simp
    rw [run] at h
    split at h
    · obtain hmem | hsaid := ih h
      · exact (hpushed hmem).imp_right .inl
      · exact .inr (.inr hsaid)
    · exact (hpushed h).imp_right .inl
  | expect n next ih =>
    rw [run] at h
    split_ifs at h with hlong
    · exact (ih _ h).imp_right fun hsaid => ⟨hlong, hsaid⟩
    · exact .inl h
  | attempt n next ih =>
    rw [run] at h
    split_ifs at h
    · exact ih _ h
    · exact .inl h

end Script

end Dialogue
