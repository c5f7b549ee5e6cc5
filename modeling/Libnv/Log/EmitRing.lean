import Libnv.Log.RingFifo
import Libnv.Log.Rotate

/-!
# Log records on their way through the ring

Threads call `nv_log_emit`, or another function that pushes, while the consumer
pops.  The state remembers which call each producer is in and which call claimed
each position, so that a popped record can be traced back to the call it comes
from.  Complete lines stay complete in the files.
-/

namespace Libnv.Log

open Transition

universe u

section System

variable {Tid : Type u}

/-- The ring, and where its messages come from: `none` stands for a caller of `nv_log_ring_push`
other than `nv_log_emit`. -/
structure EmitState (Tid : Type u) where
  core : RingState Tid
  caller : Tid → Option EmitCall
  /-- The call that claimed position `k` is entry `k`. -/
  origins : List (Option EmitCall)

/-- Who moves next. -/
inductive EmitAction (Tid : Type u) where
  | emit (t : Tid) (c : EmitCall)
  | call (t : Tid) (line : Option CString) (level : LogLevel)
  | step (t : Tid) (spurious : Bool)
  | pop

/-- The state after `nv_log_ring_init`. -/
def emitInit (queueSize : Nat) (policy : LogOverflow) : EmitState Tid where
  core := ringInit queueSize policy
  caller := fun _ => none
  origins := []

variable [DecidableEq Tid]

/-- A producer that is outside enters `nv_log_ring_push`. -/
def EmitState.enter (s : EmitState Tid) (t : Tid) (line : Option CString) (level : LogLevel)
    (c : Option EmitCall) : EmitState Tid :=
  match s.core.push t with
  | .idle =>
      { s with
        core := pushCall s.core t line level
        caller := fun u => if u = t then c else s.caller u }
  | _ => s

def emitStep (s : EmitState Tid) : EmitAction Tid → EmitState Tid
  | .emit t c =>
      match nvLogEmit c with
      | none => s
      | some (line, level) => s.enter t (some line) level (some c)
  | .call t line level => s.enter t line level none
  | .step t spurious =>
      let core := pushStep s.core t spurious
      { s with
        core := core
        origins :=
          if core.claims.length = s.core.claims.length then s.origins
          else s.origins ++ [s.caller t] }
  | .pop => { s with core := popStep s.core }

/-- The text that `nv_log_write_msg` puts into the file: the popped buffer up to its NUL. -/
def LogOut.string (out : LogOut) : CString :=
  CString.ofBuffer ((List.range nvLogMsgMax).map out.text)

end System

section Origins

variable {Tid : Type u} [DecidableEq Tid]

/-- The message of a producer that has not claimed a position yet. -/
def PushPc.pending? : PushPc → Option LogMsg
  | .entry (some line) level => some ⟨line, level⟩
  | .loadTail m => some m
  | .loadHead m _ => some m
  | .casHead m _ _ => some m
  | .countDiscard m _ => some m
  | .releaseSlot m _ => some m
  | .casTail m _ => some m
  | _ => none

/-- A producer keeps its message until the message claims a position. -/
theorem pushStep_pending (s : RingState Tid) (t : Tid) (spurious : Bool) :
    ((pushStep s t spurious).claims = s.claims ∧
      ∀ m, ((pushStep s t spurious).push t).pending? = some m →
        (s.push t).pending? = some m) ∨
    ∃ m, (s.push t).pending? = some m ∧
      (pushStep s t spurious).claims = s.claims ++ [m] ∧
      ((pushStep s t spurious).push t).pending? = none := by
  cases hpc : s.push t with
  | casTail m pos =>
      simp only [pushStep, hpc]
      split
      · refine Or.inr ⟨m, rfl, rfl, ?_⟩
        simp [RingState.goto, PushPc.pending?]
      · refine Or.inl ⟨rfl, ?_⟩
        simp [RingState.goto, PushPc.pending?]
  | idle =>
      simp only [pushStep, hpc]
      exact Or.inl ⟨trivial, fun m h => hpc ▸ h⟩
  | _ =>
      simp only [pushStep, hpc]
      repeat' split
      all_goals
        refine Or.inl ⟨rfl, ?_⟩
        simp [RingState.goto, PushPc.pending?]

/-- A message is what the call handed over. -/
def Pushes (c : EmitCall) (m : LogMsg) : Prop := nvLogEmit c = some (m.line, m.level)

/-- The invariant: the FIFO's, and every message comes from its call. -/
structure OriginInv (s : EmitState Tid) : Prop where
  fifo : FifoInv s.core
  length : s.origins.length = s.core.claims.length
  pending : ∀ t c m, s.caller t = some c → (s.core.push t).pending? = some m → Pushes c m
  claimed : ∀ (k : Nat) c, s.origins[k]? = some (some c) →
    ∃ m, s.core.claims[k]? = some m ∧ Pushes c m

variable {s : EmitState Tid}

theorem OriginInv.enter (hi : OriginInv s) (t : Tid) (line : Option CString) (level : LogLevel)
    (c : Option EmitCall) (hc : ∀ c', c = some c' → ∃ l, line = some l ∧ Pushes c' ⟨l, level⟩) :
    OriginInv (s.enter t line level c) := by
  unfold EmitState.enter
  split
  · rename_i hidle
    have hcall : pushCall s.core t line level = s.core.goto t (.entry line level) := by
      rw [pushCall, hidle]
    refine ⟨hi.fifo.step (.call t line level), ?_, ?_, ?_⟩
    · rw [hcall]
      exact hi.length
    · intro u c' m hcaller hpending
      rw [hcall] at hpending
      dsimp only at hcaller
      by_cases hu : u = t
      · subst hu
        rw [if_pos rfl] at hcaller
        rw [goto_push_self] at hpending
        obtain ⟨l, rfl, hpush⟩ := hc c' hcaller
        obtain rfl : ⟨l, level⟩ = m := Option.some.inj hpending
        exact hpush
      · rw [if_neg hu] at hcaller
        rw [goto_push_other hu] at hpending
        exact hi.pending u c' m hcaller hpending
    · rw [hcall]
      exact hi.claimed
  · exact hi

theorem OriginInv.pushStep (hi : OriginInv s) (t : Tid) (spurious : Bool) :
    OriginInv (emitStep s (.step t spurious)) := by
  have hfifo : FifoInv (Log.pushStep s.core t spurious) := hi.fifo.step (.push t spurious)
  obtain ⟨hothers, -, -⟩ := pushStep_others s.core t spurious
  rcases pushStep_pending s.core t spurious with ⟨hclaims, hkept⟩ | ⟨m, hm, hclaims, hnone⟩
  · have horigins : (emitStep s (.step t spurious)).origins = s.origins :=
      if_pos (congrArg List.length hclaims)
    refine ⟨hfifo, ?_, ?_, ?_⟩
    · rw [horigins]
      exact hi.length.trans (congrArg List.length hclaims).symm
    · intro u c m hcaller hpending
      by_cases hu : u = t
      · subst hu
        exact hi.pending u c m hcaller (hkept m hpending)
      · exact hi.pending u c m hcaller (hothers u hu ▸ hpending)
    · intro k c hk
      rw [horigins] at hk
      obtain ⟨m, hget, hpush⟩ := hi.claimed k c hk
      exact ⟨m, hclaims ▸ hget, hpush⟩
  · have hlen : (Log.pushStep s.core t spurious).claims.length = s.core.claims.length + 1 := by
      rw [hclaims]
      simp
    have horigins : (emitStep s (.step t spurious)).origins = s.origins ++ [s.caller t] :=
      if_neg (by omega)
    refine ⟨hfifo, ?_, ?_, ?_⟩
    · rw [horigins, List.length_append, hi.length]
      exact hlen.symm
    · intro u c m' hcaller hpending
      by_cases hu : u = t
      · subst hu
        exact absurd (hnone.symm.trans hpending) (Option.some_ne_none m').symm
      · exact hi.pending u c m' hcaller (hothers u hu ▸ hpending)
    · intro k c hk
      rw [horigins] at hk
      show ∃ m, (Log.pushStep s.core t spurious).claims[k]? = some m ∧ Pushes c m
      rw [hclaims]
      rcases Nat.lt_or_ge k s.origins.length with hlt | hge
      · rw [List.getElem?_append_left hlt] at hk
        obtain ⟨m', hget, hpush⟩ := hi.claimed k c hk
        exact ⟨m', by rw [List.getElem?_append_left (hi.length ▸ hlt)]; exact hget, hpush⟩
      · rw [List.getElem?_append_right hge] at hk
        obtain ⟨hk0, hcaller⟩ := List.getElem?_eq_some_iff.mp hk
        simp only [List.length_singleton, Nat.lt_one_iff] at hk0
        simp only [hk0, List.getElem_cons_zero] at hcaller
        have hkeq : k = s.core.claims.length := by
          rw [← hi.length]
          omega
        exact ⟨m, by simp [hkeq], hi.pending t c m hcaller hm⟩

theorem OriginInv.step (hi : OriginInv s) (a : EmitAction Tid) : OriginInv (emitStep s a) := by
  cases a with
  | emit t c =>
      simp only [emitStep]
      cases hemit : nvLogEmit c with
      | none => exact hi
      | some pushed =>
          obtain ⟨line, level⟩ := pushed
          refine hi.enter t (some line) level (some c) ?_
          rintro c' ⟨⟩
          exact ⟨line, rfl, hemit⟩
  | call t line level => exact hi.enter t line level none (by rintro c' ⟨⟩)
  | step t spurious => exact hi.pushStep t spurious
  | pop =>
      obtain ⟨hpush, -, hclaims, -, -⟩ := popStep_frame s.core
      refine ⟨hi.fifo.step .pop, ?_, ?_, ?_⟩
      · exact hi.length.trans (congrArg List.length hclaims).symm
      · intro t c m hcaller hpending
        exact hi.pending t c m hcaller (hpush ▸ hpending)
      · intro k c hk
        obtain ⟨m, hget, hp⟩ := hi.claimed k c hk
        exact ⟨m, hclaims ▸ hget, hp⟩

theorem originInv_run
    (queueSize : Nat) {policy : LogOverflow} (hpolicy : policy = .drop ∨ policy = .block)
    (as : List (EmitAction Tid)) : OriginInv (run emitStep (emitInit queueSize policy) as) := by
  have hne : policy ≠ .overwrite := by
    rcases hpolicy with rfl | rfl <;> simp
  refine run_invariant (fun _ a hs => hs.step a) ⟨?_, rfl, ?_, ?_⟩ as
  · exact ringInit_fifoInv queueSize hne
  · intro t c m hcaller
    cases hcaller
  · intro k c hk
    simp [emitInit] at hk

omit [DecidableEq Tid] in
/-- A popped record that `nv_log_emit` pushed. -/
theorem OriginInv.popped (hi : OriginInv s) {k : Nat} {x : Nat × LogOut} {c : EmitCall}
    (hpop : s.core.delivered[k]? = some x) (horigin : s.origins[k]? = some (some c)) :
    x.2.string.bytes ≠ [] ∧ x.2.string.length ≤ 4095 ∧ (Complete x.2.string ↔ c.Fits) := by
  obtain ⟨-, m, hclaim, htext, -⟩ := hi.fifo.delivered_get hpop
  obtain ⟨m', hclaim', hpush⟩ := hi.claimed k c horigin
  obtain rfl : m = m' := Option.some.inj (hclaim.symm.trans hclaim')
  have hline := complete_nvLogEmit_iff hpush
  have hstring : x.2.string = m.line := htext.trans (CString.take_eq_self hline.2.1)
  rw [hstring]
  exact hline

/--
Under DROP or BLOCK, in every run: the text written for a popped record of an
`nv_log_emit` call is not empty and has at most 4095 bytes, and it ends with a newline
exactly if header and message together have at most 4094 bytes or a newline as byte
4094.
-/
theorem nvLogEmit_complete_line_iff
    (queueSize : Nat)
    (policy : LogOverflow)
    (hpolicy : policy = .drop ∨ policy = .block)
    (as : List (EmitAction Tid))
    (k : Nat)
    (x : Nat × LogOut)
    (c : EmitCall)
    (hpop : (Transition.run emitStep (emitInit queueSize policy) as).core.delivered[k]? = some x)
    (horigin :
      (Transition.run emitStep (emitInit queueSize policy) as).origins[k]? = some (some c)) :
    x.2.string.bytes ≠ [] ∧ x.2.string.length ≤ 4095 ∧ (Complete x.2.string ↔ c.Fits) :=
  (originInv_run queueSize hpolicy as).popped hpop horigin

end Origins

/-- Only the point of the producer changes. -/
structure SameBut (s s' : EmitState Unit) : Prop where
  pop : s'.core.pop = s.core.pop
  tail : s'.core.ring.enqueuePos = s.core.ring.enqueuePos
  head : s'.core.ring.dequeuePos = s.core.ring.dequeuePos
  delivered : s'.core.delivered = s.core.delivered
  origins : s'.origins = s.origins

theorem SameBut.trans
    {s s' s'' : EmitState Unit} (h : SameBut s s') (h' : SameBut s' s'') : SameBut s s'' :=
  ⟨h'.pop.trans h.pop, h'.tail.trans h.tail, h'.head.trans h.head,
    h'.delivered.trans h.delivered, h'.origins.trans h.origins⟩

/-- The next point of a producer that stores its message, if it does. -/
def PushPc.stored? : PushPc → Option PushPc
  | .writeText m pos i =>
      some (if i < m.text.length then .writeText m pos (i + 1) else .writeNul m pos)
  | .writeNul m pos => some (.writeLevel m pos)
  | .writeLevel m pos => some (.publish m pos)
  | .publish _ pos => some (.reloadTail pos)
  | _ => none

theorem emitStep_stored
    {s : EmitState Unit} {pc : PushPc} (h : (s.core.push ()).stored? = some pc) :
    (emitStep s (.step () false)).core.push () = pc ∧ SameBut s (emitStep s (.step () false)) := by
  cases hpc : s.core.push () with
  | writeText m pos i =>
      rw [hpc] at h
      obtain rfl := Option.some.inj h
      by_cases hi : i < m.text.length
      · have hbyte := List.getElem?_eq_getElem (l := m.text.bytes) hi
        refine ⟨?_, ?_⟩
        · simp [emitStep, pushStep, hpc, hbyte, hi, RingState.goto]
        · constructor <;> simp [emitStep, pushStep, hpc, hbyte, RingState.goto, LogRing.setSlot]
      · have hend : m.text.bytes[i]? = none := List.getElem?_eq_none (Nat.not_lt.mp hi)
        refine ⟨?_, ?_⟩
        · simp [emitStep, pushStep, hpc, hend, hi, RingState.goto]
        · constructor <;> simp [emitStep, pushStep, hpc, hend, RingState.goto]
  | writeNul m pos | writeLevel m pos | publish m pos =>
      rw [hpc] at h
      obtain rfl := Option.some.inj h
      refine ⟨?_, ?_⟩
      · simp [emitStep, pushStep, hpc, RingState.goto]
      · constructor <;> simp [emitStep, pushStep, hpc, RingState.goto, LogRing.setSlot]
  | _ =>
      rw [hpc] at h
      cases h

/-- The first producer of an empty ring up to the load of `enqueue_pos`. -/
def emitEntered (c : EmitCall) (m : LogMsg) : EmitState Unit where
  core := (ringInit 64 .drop).goto () (.loadTail m)
  caller := fun _ => some c
  origins := []

theorem run_entered {c : EmitCall} {line : CString} {level : LogLevel}
    (hemit : nvLogEmit c = some (line, level)) :
    run emitStep (emitInit 64 .drop) [.emit () c, .step () false] =
      emitEntered c ⟨line, level⟩ := by
  have hne : line.length ≠ 0 := fun h =>
    (complete_nvLogEmit_iff hemit).1 (List.eq_nil_of_length_eq_zero h)
  simp [run, emitStep, hemit, EmitState.enter, emitInit, ringInit, pushCall, pushStep,
    RingState.goto, hne, emitEntered]

theorem run_claims (c : EmitCall) (m : LogMsg) :
    let s := run emitStep (emitEntered c m) (List.replicate 5 (.step () false))
    s.core.push () = .writeText m 0 0 ∧ s.core.pop = .idle ∧
      s.core.ring.enqueuePos = 1 ∧ s.core.ring.dequeuePos = 0 ∧ s.core.delivered = [] ∧
      s.origins = [some c] := by
  intro s
  refine ⟨?_, ?_, ?_, ?_, ?_, ?_⟩ <;> with_unfolding_all rfl

theorem run_writeText {s : EmitState Unit} {m : LogMsg} {pos n : Nat}
    (hpc : s.core.push () = .writeText m pos 0) (hn : n ≤ m.text.length) :
    (run emitStep s (List.replicate n (.step () false))).core.push () =
        .writeText m pos n ∧
      SameBut s (run emitStep s (List.replicate n (.step () false))) := by
  induction n with
  | zero => exact ⟨hpc, rfl, rfl, rfl, rfl, rfl⟩
  | succ n ih =>
      obtain ⟨hpc', hsame⟩ := ih (Nat.le_of_succ_le hn)
      rw [List.replicate_succ', run_append]
      obtain ⟨hnext, hsame'⟩ := emitStep_stored (congrArg PushPc.stored? hpc')
      rw [if_pos (Nat.lt_of_succ_le hn)] at hnext
      exact ⟨hnext, hsame.trans hsame'⟩

theorem run_publish {s : EmitState Unit} {m : LogMsg} {pos : Nat}
    (hpc : s.core.push () = .writeText m pos m.text.length) :
    (run emitStep s (List.replicate 4 (.step () false))).core.push () =
        .reloadTail pos ∧
      SameBut s (run emitStep s (List.replicate 4 (.step () false))) := by
  obtain ⟨h1, same1⟩ := emitStep_stored (congrArg PushPc.stored? hpc)
  rw [if_neg (Nat.lt_irrefl _)] at h1
  obtain ⟨h2, same2⟩ := emitStep_stored (congrArg PushPc.stored? h1)
  obtain ⟨h3, same3⟩ := emitStep_stored (congrArg PushPc.stored? h2)
  obtain ⟨h4, same4⟩ := emitStep_stored (congrArg PushPc.stored? h3)
  exact ⟨h4, same1.trans (same2.trans (same3.trans same4))⟩

/-- One call on an empty ring: the push of a line of `n` bytes up to its publication. -/
def alonePush (c : EmitCall) (n : Nat) : List (EmitAction Unit) :=
  [.emit () c, .step () false] ++ List.replicate 5 (.step () false) ++
    List.replicate n (.step () false) ++ List.replicate 4 (.step () false)

/-- The push, and the pop after it. -/
def aloneRun (c : EmitCall) (n : Nat) : List (EmitAction Unit) :=
  alonePush c n ++ List.replicate (3 + nvLogMsgMax + 4) .pop

theorem run_pops (s : EmitState Unit) (n : Nat) :
    run emitStep s (List.replicate n .pop) =
      { s with core := run ringStep s.core (List.replicate n .pop) } := by
  induction n with
  | zero => rfl
  | succ n ih =>
      rw [List.replicate_succ', List.replicate_succ', run_append,
        run_append, ih]
      rfl

/-- The record of a lone call is popped. -/
theorem run_alone {c : EmitCall} {line : CString} {level : LogLevel}
    (hemit : nvLogEmit c = some (line, level)) :
    ∃ x, (run emitStep (emitInit 64 .drop)
        (aloneRun c (LogMsg.text ⟨line, level⟩).length)).core.delivered[0]? = some x ∧
      (run emitStep (emitInit 64 .drop)
        (aloneRun c (LogMsg.text ⟨line, level⟩).length)).origins[0]? = some (some c) := by
  have hinv : OriginInv (run emitStep (emitInit 64 .drop)
      (alonePush c (LogMsg.text ⟨line, level⟩).length)) :=
    originInv_run 64 (Or.inl rfl) _
  obtain ⟨hpc, hpop, htail, hhead, hdel, horigins⟩ := run_claims c ⟨line, level⟩
  rw [aloneRun, run_append, run_pops]
  rw [alonePush, run_append, run_append, run_append,
    run_entered hemit] at hinv ⊢
  obtain ⟨hpc, hsame⟩ := run_writeText hpc (Nat.le_refl _)
  obtain ⟨hpc, hsame'⟩ := run_publish hpc
  have hall := hsame.trans hsame'
  generalize run emitStep (_ : EmitState Unit) (List.replicate 4 _) = s
    at hinv hpc hall ⊢
  have hseq : (s.core.ring.slot 0).seq = 0 + 1 := by
    rcases hinv.fifo.busy 0 (by rw [hall.head, hhead]) (by rw [hall.tail, htail]; decide) with
      hpub | ⟨t, m, hclaim⟩ | hstore
    · exact hpub.1
    · rw [hpc] at hclaim
      cases hclaim
    · rw [hall.pop, hpop] at hstore
      cases hstore
  obtain ⟨out, hout⟩ := run_pop_published (hall.pop.trans hpop) (hall.head.trans hhead)
    (by rw [hall.tail, htail]; decide) hseq
  refine ⟨(0, out), ?_, ?_⟩
  · dsimp only
    rw [hout, hall.delivered, hdel]
    rfl
  · dsimp only
    rw [hall.origins, horigins]
    rfl

/-- A call at level INFO from line 1 of `a.c` with the given message. -/
def emitInfo (message : List UInt8) : EmitCall where
  level := 1
  module := none
  file := CText.lit "a.c"
  line := 1
  message := message
  logLevel := 1
  logModule := (CBuffer.zero 32).fill [78, 86]
  now := some
    { tmYear := 126, tmMon := 10, tmMday := 16, tmHour := 9, tmMin := 5, tmSec := 7, msec := 42 }
  pid := 4321
  tid := 4321
  lineBuf := CBuffer.zero nvLogMsgMax

theorem header_emitInfo (message : List UInt8) :
    ∃ t, (emitInfo message).now = some t ∧ ((emitInfo message).header t).length = 64 := by
  refine ⟨_, rfl, ?_⟩
  show ((emitInfo []).header _).length = 64
  decide

theorem emitInfo_pushed (message : List UInt8) :
    ∃ line, nvLogEmit (emitInfo message) = some (line, .info) := by
  obtain ⟨t, hnow, hlen⟩ := header_emitInfo message
  exact nvLogEmit_isSome rfl (Int.le_refl 1) hnow (by rw [hlen]; decide)

/-- The first two letters of a greeting fit. -/
theorem nvLogEmit_complete_line_hi :
    ∃ line x,
      nvLogEmit (emitInfo [104, 105]) = some (line, .info) ∧
      (Transition.run emitStep (emitInit 64 .drop)
        (aloneRun (emitInfo [104, 105]) (LogMsg.text ⟨line, .info⟩).length)).core.delivered[0]? =
          some x ∧
      Complete x.2.string := by
  obtain ⟨line, hemit⟩ := emitInfo_pushed [104, 105]
  obtain ⟨x, hpop, horigin⟩ := run_alone hemit
  have hfits : (emitInfo [104, 105]).Fits := by
    obtain ⟨t, hnow, hlen⟩ := header_emitInfo [104, 105]
    rw [EmitCall.Fits, EmitCall.record, hnow]
    refine Or.inl ?_
    rw [CString.length_append, hlen]
    decide
  exact ⟨line, x, hemit, hpop,
    (nvLogEmit_complete_line_iff 64 .drop (Or.inl rfl) _ 0 x _ hpop horigin).2.2.mpr hfits⟩

theorem emitInfo_not_fits {n : Nat} (hn : 4095 ≤ n) : ¬ (emitInfo (List.replicate n 65)).Fits := by
  obtain ⟨t, hnow, hlen⟩ := header_emitInfo (List.replicate n 65)
  have htext : (CString.ofBuffer (emitInfo (List.replicate n 65)).message).bytes =
      List.replicate n 65 := by
    simp [CString.ofBuffer, emitInfo]
  have hlen' : ((emitInfo (List.replicate n 65)).header t).bytes.length = 64 := hlen
  rw [EmitCall.Fits, EmitCall.record, hnow]
  rintro (hshort | hlast)
  · rw [CString.length_append, hlen, CString.length, htext, List.length_replicate] at hshort
    omega
  · rw [CString.append_bytes, List.getElem?_append_right (by omega), hlen', htext,
      List.getElem?_replicate, if_pos (by omega)] at hlast
    exact absurd hlast (by decide)

/-- A message of 4095 letters is cut to the buffer, and no room is left for the newline. -/
theorem nvLogEmit_long_line :
    ∃ line x,
      nvLogEmit (emitInfo (List.replicate 4095 65)) = some (line, .info) ∧
      (Transition.run emitStep (emitInit 64 .drop)
        (aloneRun (emitInfo (List.replicate 4095 65))
          (LogMsg.text ⟨line, .info⟩).length)).core.delivered[0]? = some x ∧
      x.2.string.bytes.getLast? ≠ some 10 := by
  obtain ⟨line, hemit⟩ := emitInfo_pushed (List.replicate 4095 65)
  obtain ⟨x, hpop, horigin⟩ := run_alone hemit
  obtain ⟨hne, hle, hiff⟩ := (originInv_run 64 (Or.inl rfl) _).popped hpop horigin
  exact ⟨line, x, hemit, hpop, fun hlast =>
    emitInfo_not_fits (Nat.le_refl _) (hiff.mp ⟨hne, hle, hlast⟩)⟩

section Files

open FileStore

/-- The lines that calls of `nv_log_emit` hand over, as they are written. -/
def emitted (calls : List (EmitCall × FileEnv)) : List (CString × FileEnv) :=
  calls.filterMap fun (c, e) => (nvLogEmit c).map fun (line, _) => (line, e)

theorem exists_call_of_mem_emitted {calls : List (EmitCall × FileEnv)} {w : CString × FileEnv}
    (h : w ∈ emitted calls) : ∃ c level, (c, w.2) ∈ calls ∧ nvLogEmit c = some (w.1, level) := by
  obtain ⟨⟨c, e⟩, hc, hw⟩ := List.mem_filterMap.mp h
  obtain ⟨⟨line, level⟩, hline, rfl⟩ := Option.map_eq_some_iff.mp hw
  exact ⟨c, level, hc, hline⟩

/--
From `nv_log_emit` to the files: if the records fit, then between any two calls that
change files the log and each of its backups consist of complete lines.
-/
theorem nvLog_whole_lines
    (fs : Files CString UInt8)
    (path : CString)
    (hpath : path.length < 512)
    (maxBytes : Nat)
    (keep : Int)
    (hkeep : 1 ≤ keep)
    (hint : keep < 2 ^ 31)
    (t : LogTime)
    (hnew : ∀ n ∈ chain (logPath path t) keep.toNat, fs n = none)
    (calls : List (EmitCall × FileEnv))
    (hcalls : ∀ call ∈ calls, call.1.Fits ∧ call.2.reopen = true) :
    let s := run writeStep (openedLog fs path maxBytes keep t) (emitted calls)
    ∀ ops, ops <+: s.trace → ∀ n ∈ chain (logPath path t) keep.toNat, ∃ lines : List CString,
      contents (run (step CString.bytes) fs ops) n = lines.flatMap CString.bytes ∧
        ∀ line ∈ lines, Complete line := by
  rintro s ops ⟨later, htrace⟩ n hn
  have hlen := length_logPath hpath t
  have hnat : keep.toNat < 2 ^ 31 := by omega
  obtain ⟨hopened, hstart⟩ := writing_openedLog fs hpath maxBytes hkeep t
  obtain ⟨hs, hwritten⟩ := hopened.run hlen (by omega) hnat (emitted calls) fun w hw => by
    obtain ⟨c, level, hc, -⟩ := exists_call_of_mem_emitted hw
    exact (hcalls _ hc).2
  have hkeeps : Along (step CString.bytes)
      (Keeps (chain (logPath path t) keep.toNat)) fs (ops ++ later) := htrace ▸ hs.keeps
  obtain ⟨files, hfiles, hsuffix⟩ := (rotationOk_of_along (chain_nodup hlen hnat) hnew
    ((along_append _ _ _).mp hkeeps).1).whole
  refine ⟨files n, hfiles n hn, fun line hline => ?_⟩
  -- a line of a file was appended, so it was handed over
  have hops : line ∈ appended ops := hsuffix.subset (List.mem_flatMap.mpr ⟨n, hn, hline⟩)
  have hall : line ∈ appended s.trace := by
    rw [← htrace, appended_append]
    exact List.mem_append_left _ hops
  rw [hwritten, hstart, List.nil_append] at hall
  obtain ⟨w, hw, rfl⟩ := List.mem_map.mp (List.mem_of_mem_filter hall)
  obtain ⟨c, level, hc, hemit⟩ := exists_call_of_mem_emitted hw
  exact (complete_nvLogEmit_iff hemit).2.2.mpr (hcalls _ hc).1

/-- Four lines with two backups: each line after the first rotates the files. -/
theorem nvLog_whole_lines_rotated :
    let s := run writeStep
      (openedLog (fun _ => none) (CText.lit "a.log") 1 2 ⟨126, 10, 16, 9, 5, 7, 0⟩)
      (emitted (List.replicate 4 (emitInfo [104, 105], ⟨true, none, true, true⟩)))
    Op.rename (CText.lit "a.log.1") (CText.lit "a.log.2") ∈ s.trace ∧
    ∀ n ∈ chain (CText.lit "a.log") 2, ∃ lines : List CString,
      contents (run (step CString.bytes) (fun _ => none) s.trace) n =
        lines.flatMap CString.bytes ∧ ∀ line ∈ lines, Complete line := by
  have hfits : (emitInfo [104, 105]).Fits := Or.inl (by decide)
  refine ⟨by decide +kernel, ?_⟩
  exact nvLog_whole_lines (fun _ => none) (CText.lit "a.log") (by decide) 1 2
    (by decide) (by decide) _ (fun _ _ => rfl) _ (by simp [hfits]) _ List.prefix_rfl

end Files

end Libnv.Log
