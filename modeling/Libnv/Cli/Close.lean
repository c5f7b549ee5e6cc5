import Libnv.Cli.Editing
import Libnv.Lib.Trace

/-!
# Closing a session from one of its own commands

A command that returns `NV_CLI_CLOSE_SESSION` makes `nv_telnet_process_line`
remove and free the session, three calls below `nv_telnet_client_handler`.
Neither the loop of `nv_telnet_feed` nor the handler learns about it: the loop
goes on with the next byte, and the handler reads `sess->ctx` in any case.
-/

namespace Libnv.Cli

open CText Trace

def callTrace (env : TelnetEnv) (st : TelnetState) (input : Option (List UInt8)) :
    List TelnetEvent :=
  (nvTelnetClientHandler env { st with trace := [] } input).trace

/-- No event has the removal of the session before it. -/
def UnusedAfterRemove (tr : List TelnetEvent) : Prop :=
  Guarded (fun _ => True) (fun pre => TelnetEvent.remove ∉ pre) tr

/-- The byte submits a line in the shell whose command returns `NV_CLI_CLOSE_SESSION`. -/
def ClosesAt (env : TelnetEnv) (st : TelnetState) (c : UInt8) : Prop :=
  submits st c = true ∧ st.sess.state = .shell ∧ (st.executed env).2 = nvCliCloseSession

def InputKeepsOpen (env : TelnetEnv) (st : TelnetState) : Option (List UInt8) → Prop
  | none => True
  | some bs => 0 ≤ st.sess.fd → FeedAlong env (fun st c => ¬ ClosesAt env st c) st bs

section Removal

theorem unusedAfterRemove_snoc (tr : List TelnetEvent) (e : TelnetEvent) :
    UnusedAfterRemove (tr ++ [e]) ↔ UnusedAfterRemove tr ∧ .remove ∉ tr := by
  rw [UnusedAfterRemove, guarded_snoc, UnusedAfterRemove]
  simp

theorem unusedAfterRemove_of_not_mem {tr : List TelnetEvent} (h : .remove ∉ tr) :
    UnusedAfterRemove tr := by
  intro pre e post htr _ hpre
  exact h (htr ▸ List.mem_append_left _ hpre)

theorem remove_not_mem_editing
    {state : TelnetLogin} {more : List TelnetEvent} (hmore : ∀ e ∈ more, e.Editing state) :
    .remove ∉ more :=
  fun h => hmore _ h

variable {st st' : TelnetState}

theorem Edits.remove_mem_iff (h : Edits st st') : .remove ∈ st'.trace ↔ .remove ∈ st.trace := by
  obtain ⟨more, htr, hmore⟩ := h.trace
  rw [htr, List.mem_append, or_iff_left (remove_not_mem_editing hmore)]

theorem Follows.remove_mem_iff
    {state : TelnetLogin} {tr : List TelnetEvent} (h : Follows state tr st') :
    .remove ∈ st'.trace ↔ .remove ∈ tr := by
  obtain ⟨more, htr, hmore⟩ := h
  rw [htr, List.mem_append, or_iff_left (remove_not_mem_editing hmore)]

theorem remove_mem_submitTrace : .remove ∈ st.submitTrace ↔ .remove ∈ st.trace := by
  simp [TelnetState.submitTrace]

theorem nvTelnetProcessLine_remove_iff (env : TelnetEnv) (st : TelnetState) :
    .remove ∈ (nvTelnetProcessLine env st).trace ↔
      .remove ∈ st.trace ∨ st.sess.state = .shell ∧ (st.executed env).2 = nvCliCloseSession := by
  cases hstate : st.sess.state with
  | user =>
      obtain ⟨-, -, -, hfollows⟩ := nvTelnetProcessLine_user env st hstate
      rw [hfollows.remove_mem_iff, remove_mem_submitTrace]
      simp
  | pass =>
      obtain ⟨-, -, hfollows⟩ := nvTelnetProcessLine_pass env st hstate
      rw [hfollows.remove_mem_iff, remove_mem_submitTrace]
      simp
  | shell =>
      obtain ⟨more, hmore, ⟨hrc, -, htr⟩ | ⟨hrc, -, hfollows⟩⟩ :=
        nvTelnetProcessLine_shell env st hstate
      · simp [htr, hrc]
      · rw [hfollows.remove_mem_iff]
        simp [remove_mem_submitTrace, remove_not_mem_editing hmore, hrc]

theorem nvTelnetInput_remove_iff (env : TelnetEnv) (st : TelnetState) (c : UInt8) :
    .remove ∈ (nvTelnetInput env st c).trace ↔ .remove ∈ st.trace ∨ ClosesAt env st c := by
  cases hsubmits : submits st c with
  | true =>
      rw [nvTelnetInput_submits st env hsubmits, nvTelnetProcessLine_remove_iff]
      simp [ClosesAt, hsubmits]
  | false =>
      rw [(nvTelnetInput_edits st env hsubmits).remove_mem_iff]
      simp [ClosesAt, hsubmits]

/-- The loop removes the session exactly if some byte closes it. -/
theorem nvTelnetFeed_remove_iff (env : TelnetEnv) (st : TelnetState) (bs : List UInt8) :
    .remove ∈ (nvTelnetFeed env st bs).trace ↔
      .remove ∈ st.trace ∨ ¬ FeedAlong env (fun st c => ¬ ClosesAt env st c) st bs := by
  have hfirst : ∀ {st st' : TelnetState} {c : UInt8} {taken : Bool},
      tryEscape (st.log (.byte c)) c = (st', taken) →
        (.remove ∈ st'.trace ↔ .remove ∈ st.trace) := by
    intro st st' c taken hesc
    have hedits := tryEscape_edits st c
    rw [hesc] at hedits
    exact hedits.remove_mem_iff
  fun_induction nvTelnetFeed env st bs with
  | case1 => simp [FeedAlong]
  | case2 st c rest st' hesc ih =>
      refine ih.trans ?_
      rw [hfirst hesc, FeedAlong, hesc]
      simp
  | case3 st st' taken htaken hesc =>
      rw [hfirst hesc, FeedAlong, hesc]
      simp [htaken]
  | case4 st st' taken htaken option hesc =>
      rw [hfirst hesc, FeedAlong, hesc]
      simp [htaken]
  | case5 st st' taken htaken cmd option rest hcmd hesc ih =>
      refine ih.trans ?_
      rw [hfirst hesc, FeedAlong, hesc]
      simp [htaken, hcmd]
  | case6 st st' taken htaken cmd option rest hcmd hesc ih =>
      refine ih.trans ?_
      conv_rhs => rw [FeedAlong, hesc]
      rw [hfirst hesc]
      simp [htaken, hcmd]
  | case7 st c rest st' taken hesc htaken hc ih =>
      refine ih.trans ?_
      rw [nvTelnetInput_remove_iff, hfirst hesc, FeedAlong, hesc]
      simp only [htaken, hc, if_false, Bool.false_eq_true]
      tauto

end Removal

section Freed

/-- The session has been freed exactly if it has been removed. -/
def FreedIffRemoved (st : TelnetState) : Prop :=
  st.freed = true ↔ .remove ∈ st.trace

variable {st st' : TelnetState}

theorem FreedIffRemoved.edits (h : FreedIffRemoved st) (hedits : Edits st st') :
    FreedIffRemoved st' := by
  rw [FreedIffRemoved, hedits.freed, hedits.remove_mem_iff]
  exact h

theorem FreedIffRemoved.processLine (h : FreedIffRemoved st) (env : TelnetEnv) :
    FreedIffRemoved (nvTelnetProcessLine env st) := by
  have h : st.freed = true ↔ .remove ∈ st.trace := h
  rw [FreedIffRemoved, nvTelnetProcessLine_remove_iff, ← h]
  cases hstate : st.sess.state with
  | user =>
      obtain ⟨-, -, hkept, -⟩ := nvTelnetProcessLine_user env st hstate
      simp [hkept]
  | pass =>
      obtain ⟨-, hkept, -⟩ := nvTelnetProcessLine_pass env st hstate
      simp [hkept]
  | shell =>
      obtain ⟨-, -, ⟨hrc, hgone, -⟩ | ⟨hrc, hkept, -⟩⟩ := nvTelnetProcessLine_shell env st hstate
      · simp [hgone, hrc]
      · simp [hkept, hrc]

theorem FreedIffRemoved.feed (h : FreedIffRemoved st) (env : TelnetEnv) (bs : List UInt8) :
    FreedIffRemoved (nvTelnetFeed env st bs) := by
  refine nvTelnetFeed_invariant ?_ ?_ ?_ h bs
  · exact fun _ _ h => h.edits (Edits.log trivial)
  · exact fun st c h => h.edits (nvTelnetEscapeFeed_edits st c)
  · intro st c h
    cases hsubmits : submits st c with
    | true =>
        rw [nvTelnetInput_submits st env hsubmits]
        exact h.processLine env
    | false => exact h.edits (nvTelnetInput_edits st env hsubmits)

end Freed

section Handler

variable (env : TelnetEnv) (st : TelnetState)

/-- The state of a call of the handler when the bytes have been fed. -/
def fed (env : TelnetEnv) (st : TelnetState) (bs : List UInt8) : TelnetState :=
  nvTelnetFeed env { st with trace := [] } bs

/--
A call returns at once, or removes the session at the end of the input, or looks
at the session after the last byte, whatever has happened to it.
-/
theorem nvTelnetClientHandler_cases (input : Option (List UInt8)) :
    let st' := nvTelnetClientHandler env { st with trace := [] } input
    (st'.trace = [] ∧ st'.freed = st.freed ∧ st.sess.fd < 0) ∨
      (st'.trace = [] ++ [TelnetEvent.remove] ∧ st'.freed = true ∧
        (input = none ∨ input = some [])) ∨
      ∃ bs, (st'.trace = (fed env st bs).trace ++ [.testQuit] ∧
            st'.freed = (fed env st bs).freed ∨
          st'.trace = (fed env st bs).trace ++ [TelnetEvent.testQuit] ++ [TelnetEvent.remove] ∧
            st'.freed = true) ∧
        0 ≤ st.sess.fd ∧ input = some bs := by
  unfold nvTelnetClientHandler
  split_ifs with hfd
  · exact Or.inl ⟨rfl, rfl, hfd⟩
  · rcases input with _ | _ | ⟨c, rest⟩
    · exact Or.inr (Or.inl ⟨rfl, rfl, Or.inl rfl⟩)
    · exact Or.inr (Or.inl ⟨rfl, rfl, Or.inr rfl⟩)
    · refine Or.inr (Or.inr ⟨c :: rest, ?_, not_lt.mp hfd, rfl⟩)
      dsimp only
      split_ifs
      · exact Or.inr ⟨rfl, rfl⟩
      · exact Or.inl ⟨rfl, rfl⟩

/--
One call of the handler leaves the session alone after its removal exactly if no
byte of the input submits, in the shell, a line whose command returns
`NV_CLI_CLOSE_SESSION`.
-/
theorem nvTelnetClientHandler_unused_after_remove_iff (input : Option (List UInt8)) :
    UnusedAfterRemove (callTrace env st input) ↔
      InputKeepsOpen env { st with trace := [] } input := by
  have hnil : UnusedAfterRemove [] := unusedAfterRemove_of_not_mem (by simp)
  -- the test of `quit` comes after every removal by a command
  have htest : ∀ bs, UnusedAfterRemove ((fed env st bs).trace ++ [.testQuit]) ↔
      .remove ∉ (fed env st bs).trace := by
    intro bs
    rw [unusedAfterRemove_snoc, and_iff_right_of_imp unusedAfterRemove_of_not_mem]
  have hkeeps : ∀ bs, 0 ≤ st.sess.fd → (.remove ∉ (fed env st bs).trace ↔
      InputKeepsOpen env { st with trace := [] } (some bs)) := by
    intro bs hfd
    rw [fed, nvTelnetFeed_remove_iff]
    simp [InputKeepsOpen, hfd]
  unfold callTrace
  obtain ⟨htr, -, hfd⟩ | ⟨htr, -, hinput⟩ | ⟨bs, ⟨htr, -⟩ | ⟨htr, -⟩, hfd, rfl⟩ :=
    nvTelnetClientHandler_cases env st input
  · rw [htr]
    refine iff_of_true hnil ?_
    cases input with
    | none => trivial
    | some bs => exact fun h => absurd hfd (not_lt.mpr h)
  · rw [htr, unusedAfterRemove_snoc]
    refine iff_of_true ⟨hnil, by simp⟩ ?_
    rcases hinput with rfl | rfl
    · trivial
    · exact fun _ => trivial
  · rw [htr, htest, hkeeps bs hfd]
  · have hlast : .remove ∉ (fed env st bs).trace ++ [.testQuit] ↔
        .remove ∉ (fed env st bs).trace := by
      simp
    rw [htr, unusedAfterRemove_snoc, htest, hlast, and_self, hkeeps bs hfd]

end Handler

/-- No files and no commands besides the built-in ones; freed memory keeps its contents. -/
def plainEnv : TelnetEnv where
  cli := { files := fun _ => none, plugin := fun _ s _ => (s, NvRc.ok.code) }
  version := lit "1.0.0"
  buildTime := lit "2026-01-01"
  reuse := id

/-- The console after a start with the default configuration and a password. -/
def plainCli : CliState where
  ctx := { Core.nvCoreSetDefaults with
    opts := { Core.defaultOpts with cliPassword := some (lit "correct-horse") } }
  quit := false
  cmds := []
  interactive := false
  inited := false

/--
A client that logs in and leaves with `exit` and the usual CR LF: the LF is
looked at, and `sess->ctx` read, after the session was freed.
-/
theorem exit_line_uses_freed_session :
    [.remove, .byte 10, .testQuit] <:+
        callTrace plainEnv (nvTelnetSessStart plainEnv plainCli [] 1 5)
          (some (lit "admin\rcorrect-horse\rexit\r\n").bytes) ∧
      ¬ UnusedAfterRemove
        (callTrace plainEnv (nvTelnetSessStart plainEnv plainCli [] 1 5)
          (some (lit "admin\rcorrect-horse\rexit\r\n").bytes)) := by
  have hend : [.remove, .byte 10, .testQuit] <:+
      callTrace plainEnv (nvTelnetSessStart plainEnv plainCli [] 1 5)
        (some (lit "admin\rcorrect-horse\rexit\r\n").bytes) := by
    decide +kernel
  refine ⟨hend, fun h => ?_⟩
  obtain ⟨pre, htr⟩ := hend
  exact h (pre ++ [.remove]) (.byte 10) [.testQuit] (by simp [← htr]) trivial (by simp)

end Libnv.Cli
