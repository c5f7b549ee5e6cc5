import Mathlib.Data.Finset.Basic

/-!
# The signal module

`nv_signal.c` keeps a table of handlers and a signal mask.  A registered signal
is blocked and added to the mask of one signalfd, so that a delivered signal
stays pending until `nv_signal_dispatch` reads it from there and calls the
handler.  Whether a call of `signalfd` succeeds is chosen from outside.

Four signals cannot be blocked this way, and `nv_signal_register` does not look at the
results: `sigaddset` refuses the two that the C library keeps for itself, and the kernel
takes `SIGKILL` and `SIGSTOP` out of every mask.

A handler works on a state of type `S`.
-/

namespace Libnv.Signal

universe u

/-- Signal numbers on Linux. -/
def sigInt : Int := 2

@[inherit_doc sigInt]
def sigTerm : Int := 15

@[inherit_doc sigInt]
def sigChld : Int := 17

/-- `SIGCANCEL` and `SIGSETXID`. -/
def internalSignals : Finset Int := {32, 33}

/-- `SIGKILL` and `SIGSTOP`. -/
def unmaskable : Finset Int := {9, 19}

def nsig : Int := 65

def nvSignalSlotMax : Nat := 32

/-- A used entry of `g_slots`. -/
structure SignalSlot (S : Type u) where
  signum : Int
  handler : Int → S → S

/-- The static variables of `nv_signal.c` and the signal mask of the process. -/
structure SignalModule (S : Type u) where
  blocked : Finset Int
  gMask : Finset Int
  /-- `g_signalfd`, with the mask that it was last given. -/
  signalfd : Option (Finset Int)
  /-- `g_slots`; an unused entry is `none`. -/
  slots : List (Option (SignalSlot S))
  inited : Bool

section Module

variable {S : Type u}

/-- The statics before the first call. -/
def signalStart (blocked : Finset Int) : SignalModule S where
  blocked := blocked
  gMask := ∅
  signalfd := none
  slots := List.replicate nvSignalSlotMax none
  inited := false

def sigaddset (set : Finset Int) (signum : Int) : Finset Int :=
  if signum ∈ internalSignals then set else insert signum set

/-- `fdOk` says whether `signalfd` succeeds. -/
def nvSignalUpdateFd (g : SignalModule S) (fdOk : Bool) : Int × SignalModule S :=
  if fdOk then (0, { g with signalfd := some (g.gMask \ unmaskable) }) else (-1, g)

def slotIs (signum : Int) (slot : Option (SignalSlot S)) : Bool :=
  slot.any fun entry => entry.signum == signum

def nvSignalFindHandler (g : SignalModule S) (signum : Int) : Option (Int → S → S) :=
  (g.slots.find? (slotIs signum)).join.map SignalSlot.handler

def nvSignalInit (g : SignalModule S) (fdOk : Bool) : Int × SignalModule S :=
  if g.inited then (0, g)
  else
    match nvSignalUpdateFd
      { g with gMask := ∅, slots := List.replicate nvSignalSlotMax none } fdOk with
    | (0, g') => (0, { g' with inited := true })
    | (_, g') => (-1, g')

/-- The second part of `nv_signal_register`: the slots are searched. -/
def registerSlot (g : SignalModule S) (signum : Int) (handler : Int → S → S) (fdOk : Bool) :
    Int × SignalModule S :=
  match g.slots.findIdx? (slotIs signum) with
  | some i => (0, { g with slots := g.slots.set i (some ⟨signum, handler⟩) })
  | none =>
      match g.slots.findIdx? Option.isNone with
      | some i =>
          let gMask := sigaddset g.gMask signum
          nvSignalUpdateFd
            { g with
              slots := g.slots.set i (some ⟨signum, handler⟩)
              gMask := gMask
              blocked := g.blocked ∪ gMask \ unmaskable } fdOk
      | none => (-1, g)

/-- `initOk` and `fdOk` are the results of the calls of `signalfd`. -/
def nvSignalRegister (g : SignalModule S) (signum : Int) (handler : Option (Int → S → S))
    (initOk fdOk : Bool) : Int × SignalModule S :=
  match handler with
  | none => (-1, g)
  | some handler =>
      if signum ≤ 0 ∨ nsig ≤ signum then (-1, g)
      else
        match nvSignalInit g initOk with
        | (0, g') => registerSlot g' signum handler fdOk
        | (_, g') => (-1, g')

/-- `g_mask` is emptied before it is passed to `sigprocmask`. -/
def nvSignalShutdown (g : SignalModule S) : SignalModule S :=
  let g := { g with signalfd := none, gMask := ∅ }
  { g with
    blocked := g.blocked \ g.gMask
    slots := List.replicate nvSignalSlotMax none
    inited := false }

/--
`nv_signal_dispatch` on `g_signalfd`: the pending signals of its mask are read,
and the handler of each is called.
-/
def nvSignalDispatch (g : SignalModule S) (pending : List Int) (s : S) : List Int × S :=
  match g.signalfd with
  | none => (pending, s)
  | some mask =>
      (pending.filter (· ∉ mask),
        (pending.filter (· ∈ mask)).foldl
          (fun s signum =>
            match nvSignalFindHandler g signum with
            | some handler => handler signum s
            | none => s)
          s)

end Module

end Libnv.Signal
