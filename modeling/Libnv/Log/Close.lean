import Mathlib.Data.List.Nodup
import Libnv.Log.ThreadInv

/-!
# Which accepted log lines are written before `nv_log_close` returns

When `nv_log_close` has returned, an accepted line has been written exactly once
unless it was ignored or lies behind the unpublished position at which the final
loop gave up; both happen.  They do not happen in a run whose steps meet
`PopSiteOk`.
-/

namespace Libnv.Log

open Transition

universe u

section Runs

variable {Tid : Type u} [DecidableEq Tid]

/-- Position `p` was handed to `nv_log_write_msg` once, with its own text and level. -/
def LogSystem.WrittenOnce (s : LogSystem Tid) (p : Nat) : Prop :=
  (s.written.map Prod.fst).count p = 1 ∧
    ∀ out, (p, out) ∈ s.written → ∃ m, s.core.claims[p]? = some m ∧
      CString.ofBuffer ((List.range nvLogMsgMax).map out.text) =
        m.line.take (nvLogMsgMax - 1) ∧
      out.level = m.level

/--
When `nv_log_close` has returned, a line that was accepted before the call has
been written exactly once, unless the log thread popped it with the mutex held
or gave up its final loop at an unpublished position not after it.
-/
theorem nvLogClose_writes_accepted_iff (queueSize : Nat) (as : List (LogAction Tid)) :
    let s := run logStep (logInit queueSize : LogSystem Tid) as
    s.close = .returned → ∀ p ∈ s.accepted,
      (s.WrittenOnce p ↔ p ∉ s.ignored ∧ ∀ q, s.gaveUp = some q → p < q) := by
  intro s hclose p hp
  have hi : LogInv s :=
    run_invariant (fun _ a h => LogInv.step a h) (logInit_inv queueSize) as
  have hexit := hi.joined (by simp [hclose, ClosePc.joined])
  have haccounts : (s.written.map Prod.fst ++ s.ignored).Perm
      (List.range s.core.delivered.length) := by
    have h := hi.accounts
    simpa [LogSystem.pending, LogSystem.holding, hexit, hi.order] using h
  have hnodup := haccounts.nodup_iff.mpr List.nodup_range
  obtain ⟨hnw, -, hapart⟩ := List.nodup_append.mp hnodup
  have hmem : p ∈ s.written.map Prod.fst ∨ p ∈ s.ignored ↔
      p < s.core.delivered.length := by
    rw [← List.mem_append, haccounts.mem_iff, List.mem_range]
  have hend := hi.ended (Or.inl hexit)
  constructor
  · intro hwritten
    have hin : p ∈ s.written.map Prod.fst := by
      rw [← List.count_pos_iff, hwritten.1]
      exact Nat.one_pos
    refine ⟨fun hig => hapart p hin p hig rfl, ?_⟩
    intro q hq
    rcases hend with ⟨hnone, -⟩ | hsome
    · rw [hnone] at hq
      cases hq
    · rw [hsome] at hq
      cases hq
      exact hmem.mp (Or.inl hin)
  · rintro ⟨hig, hbefore⟩
    have hlt : p < s.core.delivered.length := by
      rcases hend with ⟨-, hall⟩ | hsome
      · exact hall p hp
      · exact hbefore _ hsome
    have hin : p ∈ s.written.map Prod.fst := by
      rcases hmem.mpr hlt with h | h
      · exact h
      · exact absurd h hig
    refine ⟨List.count_eq_one_of_mem hnw hin, ?_⟩
    intro out hout
    exact returned_text (hi.contents _ (hi.writes _ hout))

end Runs

section NothingLost

variable {Tid : Type u}

/-- The pop has seen a published slot and takes its message. -/
def PopPc.taking : PopPc → Bool
  | .copyText _ _ => true
  | .copyLevel _ => true
  | .storeSeq _ => true
  | .storeHead _ => true
  | .ret ok => ok
  | _ => false

/--
The condition on the state before a step.  Where the log thread looks at the
slot of the position `pos`: with the mutex held, the slot is not published; in
the final loop it is published, or no accepted line is at `pos` or behind it.
-/
def PopSiteOk (s : LogSystem Tid) : LogAction Tid → Prop
  | .thread =>
      match s.thread, s.core.pop with
      | .pop .locked, .loadSeq pos => (s.core.ring.slot pos).seq ≠ pos + 1
      | .pop .drain, .loadSeq pos =>
          (s.core.ring.slot pos).seq = pos + 1 ∨ ∀ p ∈ s.accepted, p < pos
      | _, _ => True
  | _ => True

instance (s : LogSystem Tid) (a : LogAction Tid) : Decidable (PopSiteOk s a) := by
  unfold PopSiteOk
  repeat' split
  all_goals infer_instance

/-- Nothing was popped with the mutex held or left behind in the ring. -/
structure NothingLost (s : LogSystem Tid) : Prop where
  locked : s.thread = .pop .locked → s.core.pop.taking = false
  ignored : s.ignored = []
  behind : ∀ q, s.gaveUp = some q → ∀ p ∈ s.accepted, p < q

variable {s : LogSystem Tid}

/-- A step elsewhere: the pop stays where it is, and the thread enters no pop. -/
theorem NothingLost.frame (hn : NothingLost s) {s' : LogSystem Tid}
    (hpop : s'.core.pop = s.core.pop) (hthread : s'.thread = .pop .locked → s.thread = .pop .locked)
    (hignored : s'.ignored = s.ignored) (hgaveUp : s'.gaveUp = s.gaveUp)
    (haccepted : s'.accepted = s.accepted) : NothingLost s' := by
  refine ⟨?_, ?_, ?_⟩
  · intro h
    rw [hpop]
    exact hn.locked (hthread h)
  · rw [hignored]
    exact hn.ignored
  · rw [hgaveUp, haccepted]
    exact hn.behind

theorem wake_eq_pop {pc : ThreadPc} {site : PopSite} (h : wake pc = .pop site) :
    pc = .pop site := by
  cases pc with
  | waiting => simp [wake] at h
  | _ => exact h

theorem NothingLost.popSiteStep
    (hn : NothingLost s) {site : PopSite} (hthread : s.thread = .pop site)
    (hok : PopSiteOk s .thread) : NothingLost (popSiteStep s site) := by
  have hlocked := hn.locked
  rw [hthread] at hlocked
  cases hpc : s.core.pop with
  | ret ok =>
      rw [hpc] at hlocked
      simp only [Log.popSiteStep, hpc]
      refine ⟨?_, ?_, hn.behind⟩
      · cases site <;> cases ok <;> simp [afterPop]
      · rw [if_neg]
        · exact hn.ignored
        · rintro ⟨rfl, rfl⟩
          simp [PopPc.taking] at hlocked
  | loadSeq pos =>
      simp only [PopSiteOk, hthread, hpc] at hok
      simp only [Log.popSiteStep, hpc]
      refine ⟨?_, hn.ignored, ?_⟩
      · intro h
        obtain rfl : site = .locked := by simpa [hthread] using h
        simp only [popStep, hpc, if_pos hok]
        rfl
      · intro q hq
        dsimp only at hq
        split at hq
        · rename_i hfail
          obtain ⟨rfl, hseq⟩ := hfail
          cases hq
          exact hok.resolve_left hseq
        · exact hn.behind q hq
  | idle =>
      simp only [Log.popSiteStep, popStep, hpc]
      exact ⟨fun _ => rfl, hn.ignored, hn.behind⟩
  | loadTail pos =>
      simp only [Log.popSiteStep, popStep, hpc]
      refine ⟨fun _ => ?_, hn.ignored, hn.behind⟩
      dsimp only
      split <;> rfl
  | _ =>
      -- with the mutex held the pop is not here
      rw [hpc] at hlocked
      simp only [Log.popSiteStep, hpc]
      refine ⟨?_, hn.ignored, hn.behind⟩
      intro h
      obtain rfl : site = .locked := by simpa [hthread] using h
      cases hlocked rfl

theorem NothingLost.threadStep (hi : LogInv s) (hn : NothingLost s) (hok : PopSiteOk s .thread) :
    NothingLost (threadStep s) := by
  cases hpc : s.thread with
  | pop site =>
      simp only [Log.threadStep, hpc]
      exact hn.popSiteStep hpc hok
  | write site =>
      simp only [Log.threadStep, hpc]
      refine hn.frame rfl ?_ rfl rfl rfl
      cases site <;> simp [afterWrite]
  | checkStop site =>
      cases site <;> simp only [Log.threadStep, hpc]
      all_goals repeat' split
      all_goals first
        | exact hn
        | exact hn.frame rfl (by simp) rfl rfl rfl
  | lock =>
      simp only [Log.threadStep, hpc]
      refine ⟨fun _ => ?_, hn.ignored, hn.behind⟩
      rw [hi.idle (by simp [hpc])]
      rfl
  | waiting => simpa only [Log.threadStep, hpc] using hn
  | exited => simpa only [Log.threadStep, hpc] using hn
  | _ =>
      simp only [Log.threadStep, hpc]
      exact hn.frame rfl (by simp) rfl rfl rfl

theorem NothingLost.closeStep (hn : NothingLost s) : NothingLost (closeStep s) := by
  cases hc : s.close <;> simp only [Log.closeStep, hc]
  case broadcast =>
    split
    · exact hn
    · exact hn.frame rfl wake_eq_pop rfl rfl rfl
  case join =>
    split
    · exact hn.frame rfl id rfl rfl rfl
    · exact hn
  all_goals exact hn.frame rfl id rfl rfl rfl

variable [DecidableEq Tid]

theorem NothingLost.producerStep (hi : LogInv s) (hn : NothingLost s) (t : Tid) (spurious : Bool) :
    NothingLost (producerStep s t spurious) := by
  have hpop := (pushStep_frame s.core t spurious).pop
  cases hpc : s.core.push t with
  | signal pos =>
      simp only [Log.producerStep, hpc]
      split
      · exact hn
      · exact hn.frame hpop wake_eq_pop rfl rfl rfl
  | ret rc pos =>
      simp only [Log.producerStep, hpc]
      split
      · rename_i hacc
        have hnone : s.gaveUp = none :=
          hi.unended fun h => hi.draining h.draining hacc.1
        refine ⟨?_, hn.ignored, ?_⟩
        · rw [hpop]
          exact hn.locked
        · simp [hnone]
      · exact hn.frame hpop id rfl rfl rfl
  | _ =>
      simp only [Log.producerStep, hpc]
      exact hn.frame hpop id rfl rfl rfl

theorem NothingLost.step
    (hi : LogInv s) (hn : NothingLost s) (a : LogAction Tid) (hok : PopSiteOk s a) :
    NothingLost (logStep s a) := by
  cases a with
  | call t line level =>
      exact hn.frame (pushCall_frame s.core t line level).pop id rfl rfl rfl
  | push t spurious => exact hn.producerStep hi t spurious
  | thread => exact hn.threadStep hi hok
  | wakeup => exact hn.frame rfl wake_eq_pop rfl rfl rfl
  | close => exact hn.closeStep

/--
In every run whose steps meet `PopSiteOk`: when `nv_log_close` has returned,
each line that was accepted before the call has been written exactly once.
-/
theorem nvLogClose_writes_accepted
    (queueSize : Nat)
    (as : List (LogAction Tid))
    (hok : Transition.Along logStep PopSiteOk (logInit queueSize) as) :
    let s := Transition.run logStep (logInit queueSize) as
    s.close = .returned → ∀ p ∈ s.accepted, s.WrittenOnce p := by
  intro s hclose p hp
  have hinit : NothingLost (logInit queueSize : LogSystem Tid) :=
    ⟨by simp [logInit], rfl, by simp [logInit]⟩
  have hstep : ∀ (s : LogSystem Tid) a, LogInv s ∧ NothingLost s → PopSiteOk s a →
      LogInv (logStep s a) ∧ NothingLost (logStep s a) :=
    fun _ a h hok => ⟨h.1.step a, h.2.step h.1 a hok⟩
  obtain ⟨-, hn⟩ := run_invariant_of_along hstep ⟨logInit_inv queueSize, hinit⟩ hok
  refine (nvLogClose_writes_accepted_iff queueSize as hclose p hp).mpr ⟨?_, ?_⟩
  · rw [hn.ignored]
    exact List.not_mem_nil
  · intro q hq
    exact hn.behind q hq p hp

end NothingLost

theorem run_thread_copyText
    {Tid : Type u} [DecidableEq Tid] (s : LogSystem Tid) (site : PopSite) (pos : Nat)
    {n : Nat} (hle : n ≤ nvLogMsgMax)
    (hthread : s.thread = .pop site) (hpc : s.core.pop = .copyText pos 0) :
    run logStep s (List.replicate n .thread) =
      { s with core := s.core.copiedText pos n } := by
  induction n with
  | zero => rw [copiedText_zero hpc]; rfl
  | succ n ih =>
      rw [List.replicate_succ', run_append, ih (Nat.le_of_succ_le hle),
        ← popStep_copiedText s.core hle]
      simp [logStep, threadStep, popSiteStep, hthread, RingState.copiedText]

theorem along_thread_copyText
    {Tid : Type u} [DecidableEq Tid] (s : LogSystem Tid) (site : PopSite) (pos : Nat)
    {n : Nat} (hle : n ≤ nvLogMsgMax)
    (hthread : s.thread = .pop site) (hpc : s.core.pop = .copyText pos 0) :
    Along logStep PopSiteOk s (List.replicate n .thread) := by
  induction n with
  | zero => trivial
  | succ n ih =>
      have hle' := Nat.le_of_succ_le hle
      rw [List.replicate_succ', along_append,
        run_thread_copyText s site pos hle' hthread hpc]
      refine ⟨ih hle', ?_, trivial⟩
      cases site <;> simp [PopSiteOk, hthread, RingState.copiedText]

theorem nulFree_A : (0 : UInt8) ∉ [65] := by decide

/-- A producer logs one line and its push returns `0`. -/
def pushOneLine : List (LogAction Unit) :=
  .call () (some ⟨[65], nulFree_A⟩) .info :: List.replicate 15 (.push () false)

/-- After the copy the thread goes on until the ring is empty, and the log is closed. -/
def finishAndClose : List (LogAction Unit) :=
  List.replicate 9 LogAction.thread ++ List.replicate 3 LogAction.close ++
    List.replicate 4 LogAction.thread ++ List.replicate 3 LogAction.close

/-- The line is there before the thread looks for it. -/
def writtenRun : List (LogAction Unit) :=
  (pushOneLine ++ List.replicate 3 LogAction.thread) ++
    List.replicate nvLogMsgMax LogAction.thread ++ finishAndClose

theorem nvLogClose_writes_pushed_line :
    (Transition.run logStep (logInit 64) writtenRun).WrittenOnce 0 := by
  have hthread : (run logStep (logInit 64)
      (pushOneLine ++ List.replicate 3 LogAction.thread)).thread = .pop .main := by decide +kernel
  have hpc : (run logStep (logInit 64)
      (pushOneLine ++ List.replicate 3 LogAction.thread)).core.pop = .copyText 0 0 := by decide +kernel
  have hcopy := run_thread_copyText _ .main 0 (Nat.le_refl _) hthread hpc
  have hok : Along logStep PopSiteOk (logInit 64) writtenRun := by
    refine (along_append _ _ _).mpr
      ⟨(along_append _ _ _).mpr ⟨by decide +kernel, ?_⟩, ?_⟩
    · exact along_thread_copyText _ .main 0 (Nat.le_refl _) hthread hpc
    · rw [run_append, hcopy]
      decide +kernel
  have hwritten := nvLogClose_writes_accepted 64 writtenRun hok
  rw [writtenRun, run_append, run_append, hcopy] at hwritten ⊢
  exact hwritten (by decide +kernel) 0 (by decide +kernel)

/--
The thread finds the ring empty and is about to take the mutex; the line is
pushed, and the pop under the mutex takes it.
-/
def ignoredRun : List (LogAction Unit) :=
  (List.replicate 4 LogAction.thread ++ pushOneLine ++ List.replicate 4 LogAction.thread) ++
    List.replicate nvLogMsgMax LogAction.thread ++ finishAndClose

/-- The line was accepted, `nv_log_close` has returned, and nothing was written. -/
theorem nvLogClose_loses_line_popped_under_mutex :
    let s := Transition.run logStep (logInit 64) ignoredRun
    s.close = .returned ∧ s.accepted = [0] ∧ s.written.map Prod.fst = [] := by
  have hcopy := run_thread_copyText
    (run logStep (logInit 64)
      (List.replicate 4 LogAction.thread ++ pushOneLine ++
        List.replicate 4 LogAction.thread))
    .locked 0 (Nat.le_refl _) (by decide +kernel) (by decide +kernel)
  rw [ignoredRun, run_append, run_append, hcopy]
  decide +kernel

end Libnv.Log
