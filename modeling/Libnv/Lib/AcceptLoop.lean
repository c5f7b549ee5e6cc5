import Libnv.Lib.Transition

/-!
# Accepting connections in a loop

A server takes the connections that wait at a listening socket, one after another,
until accepting fails.  With an empty backlog it fails at once if the socket is
non-blocking; otherwise the server waits for the next client, and goes on when one
connects.

`S` is the state of the server and `C` the type of connections.  Serving a
connection may also never return.
-/

namespace Libnv.AcceptLoop

open Transition

universe u v

variable {S : Type u} {C : Type v}

/-- Where the server is. -/
inductive Pc where
  | accepting
  /-- Serving a connection, and not coming back. -/
  | serving
  | returned
deriving DecidableEq

/-- A server that accepts connections from a socket. -/
structure Loop (S : Type u) (C : Type v) where
  pc : Pc
  nonblock : Bool
  /-- The connections that have not been accepted yet. -/
  backlog : List C
  state : S

/-- The server makes a turn of its loop, or a client connects. -/
inductive Action (C : Type v) where
  | turn
  | connect (c : C)

/-- A turn; `serve` gives `none` for a connection that it never returns from. -/
def turn (serve : S → C → Option S) (l : Loop S C) : Loop S C :=
  match l.pc, l.backlog with
  | .accepting, c :: rest =>
      match serve l.state c with
      | some s => { l with backlog := rest, state := s }
      | none => { l with pc := .serving, backlog := rest }
  | .accepting, [] => if l.nonblock then { l with pc := .returned } else l
  | .serving, _ => l
  | .returned, _ => l

def step (serve : S → C → Option S) (l : Loop S C) : Action C → Loop S C
  | .turn => turn serve l
  | .connect c => { l with backlog := l.backlog ++ [c] }

section Runs

variable {serve : S → C → Option S}

/-- The server waits for its next connection, and the socket is blocking. -/
def Waits (l : Loop S C) : Prop := l.nonblock = false ∧ l.pc ≠ .returned

theorem Waits.step (l : Loop S C) (a : Action C) (h : Waits l) : Waits (step serve l a) := by
  obtain ⟨pc, nonblock, backlog, state⟩ := l
  obtain ⟨rfl, hpc⟩ := h
  cases a with
  | connect c => exact ⟨rfl, hpc⟩
  | turn =>
      cases pc with
      | serving => exact ⟨rfl, hpc⟩
      | returned => exact absurd rfl hpc
      | accepting =>
          cases backlog with
          | nil => exact ⟨rfl, hpc⟩
          | cons c rest =>
              cases hserve : serve state c with
              | some s => simp [AcceptLoop.step, turn, hserve, Waits]
              | none => simp [AcceptLoop.step, turn, hserve, Waits]

/-- With a blocking socket the loop is never left, whoever connects. -/
theorem not_returned
    {l : Loop S C} (hblock : l.nonblock = false) (hpc : l.pc = .accepting) (as : List (Action C)) :
    (run (step serve) l as).pc ≠ .returned := by
  have hwaits : Waits l := ⟨hblock, by simp [hpc]⟩
  exact (run_invariant Waits.step hwaits as).2

/-- With a non-blocking socket the loop is left after the last connection. -/
theorem run_turns
    {backlog : List C} {state final : S} (hserve : backlog.foldlM serve state = some final) :
    run (step serve) ⟨.accepting, true, backlog, state⟩
      (List.replicate (backlog.length + 1) .turn) = ⟨.returned, true, [], final⟩ := by
  induction backlog generalizing state with
  | nil =>
      cases hserve
      rfl
  | cons c rest ih =>
      rw [List.foldlM_cons, Option.bind_eq_bind, Option.bind_eq_some_iff] at hserve
      obtain ⟨s, hs, hrest⟩ := hserve
      have hturn : step serve ⟨.accepting, true, c :: rest, state⟩ .turn =
          ⟨.accepting, true, rest, s⟩ := by
        simp [step, turn, hs]
      rw [List.length_cons, List.replicate_succ, run_cons, hturn]
      exact ih hrest

end Runs

end Libnv.AcceptLoop
