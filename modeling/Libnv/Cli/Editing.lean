import Libnv.Cli.Telnet

/-!
# What a byte does to a session

Every function that a byte reaches, except `nv_telnet_process_line`, only edits
the line: it keeps the login state and the user name, frees nothing, and outside
the shell it leaves the line to the characters that are typed (`Edits`).  What
submitting a line does is stated once for each login state.
-/

namespace Libnv.Cli

open CText Secure

def TelnetEvent.Editing (state : TelnetLogin) : TelnetEvent → Prop
  | .byte _ | .out _ | .testQuit => True
  | .edit _ before after => state = .shell ∨ before = after
  | .submit .. | .execute .. | .remove => False

/-- `st'` comes from `st` by editing. -/
structure Edits (st st' : TelnetState) : Prop where
  state : st'.sess.state = st.sess.state
  user : st'.sess.user = st.sess.user
  freed : st'.freed = st.freed
  trace : ∃ more, st'.trace = st.trace ++ more ∧ ∀ e ∈ more, e.Editing st.sess.state

namespace Edits

variable {st st' st'' : TelnetState}

theorem refl (st : TelnetState) : Edits st st where
  state := rfl
  user := rfl
  freed := rfl
  trace := ⟨[], by simp⟩

theorem trans (h : Edits st st') (h' : Edits st' st'') : Edits st st'' where
  state := h'.state.trans h.state
  user := h'.user.trans h.user
  freed := h'.freed.trans h.freed
  trace := by
    obtain ⟨more, htr, hmore⟩ := h.trace
    obtain ⟨more', htr', hmore'⟩ := h'.trace
    refine ⟨more ++ more', by rw [htr', htr, List.append_assoc], ?_⟩
    intro e he
    rcases List.mem_append.mp he with he | he
    · exact hmore e he
    · exact h.state ▸ hmore' e he

theorem log {e : TelnetEvent} (he : e.Editing st.sess.state) : Edits st (st.log e) where
  state := rfl
  user := rfl
  freed := rfl
  trace := ⟨[e], rfl, by simpa using he⟩

theorem upd {f : TelnetSess → TelnetSess}
    (hstate : (f st.sess).state = st.sess.state) (huser : (f st.sess).user = st.sess.user) :
    Edits st (st.upd f) where
  state := hstate
  user := huser
  freed := rfl
  trace := ⟨[], by simp [TelnetState.upd]⟩

theorem shared (st : TelnetState) (cli : CliState) (sessions : List Nat) :
    Edits st { st with cli := cli, sessions := sessions } where
  state := rfl
  user := rfl
  freed := rfl
  trace := ⟨[], by simp⟩

theorem trace_grows (h : Edits st st') : st.trace <+: st'.trace := by
  obtain ⟨more, htr, -⟩ := h.trace
  exact ⟨more, htr.symm⟩

end Edits

section Unedited

universe u

/-- A part `g` of the state that no editing touches. -/
structure Unedited {β : Type u} (g : TelnetState → β) : Prop where
  log : ∀ st e, g (st.log e) = g st
  shared : ∀ (st : TelnetState) cli, g { st with cli := cli } = g st
  edit : ∀ (st : TelnetState) line lineLen history historyCount historyPos historyDraft,
    g { st with
      sess := { st.sess with
        line := line
        lineLen := lineLen
        history := history
        historyCount := historyCount
        historyPos := historyPos
        historyDraft := historyDraft } } = g st

namespace Unedited

variable {β : Type u} {g : TelnetState → β} (h : Unedited g) (st : TelnetState)
include h

theorem write (text : List UInt8) : g (nvCoreCliWrite st text) = g st := by
  unfold nvCoreCliWrite
  split
  · rfl
  · exact h.log _ _

theorem writeRaw (text : List UInt8) : g (nvTelnetWriteRaw st text) = g st := by
  unfold nvTelnetWriteRaw
  split
  · rfl
  · exact h.log _ _

theorem redraw : g (nvTelnetRedrawLine st) = g st :=
  (h.write _ _).trans (h.edit st _ _ _ _ _ _)

theorem historyUp : g (nvTelnetHistoryUp st) = g st := by
  unfold nvTelnetHistoryUp
  rw [h.log]
  split_ifs
  · rfl
  · exact (h.redraw _).trans (h.edit st _ _ _ _ _ _)
  · exact (h.redraw _).trans (h.edit st _ _ _ _ _ _)
  · rfl

theorem historyDown : g (nvTelnetHistoryDown st) = g st := by
  unfold nvTelnetHistoryDown
  rw [h.log]
  split_ifs
  · rfl
  · exact (h.redraw _).trans (h.edit st _ _ _ _ _ _)
  · exact (h.redraw _).trans (h.edit st _ _ _ _ _ _)

end Unedited

end Unedited

section Functions

variable (st : TelnetState)

theorem nvCoreCliWrite_edits (text : List UInt8) : Edits st (nvCoreCliWrite st text) := by
  unfold nvCoreCliWrite
  split
  · exact Edits.refl st
  · exact Edits.log trivial

theorem nvTelnetWriteRaw_edits (text : List UInt8) : Edits st (nvTelnetWriteRaw st text) := by
  unfold nvTelnetWriteRaw
  split
  · exact Edits.refl st
  · exact Edits.log trivial

theorem foldl_write_edits (texts : List (List UInt8)) :
    Edits st (texts.foldl nvCoreCliWrite st) := by
  induction texts generalizing st with
  | nil => exact Edits.refl st
  | cons text texts ih => exact (nvCoreCliWrite_edits st text).trans (ih _)

theorem nvTelnetSendLoginUser_edits (env : TelnetEnv) (hstate : st.sess.state = .user) :
    Edits st (nvTelnetSendLoginUser env st) := by
  have hwrite : Edits st (nvCoreCliWrite (nvCoreCliPrintBanner env st) (lit "login: ").bytes) :=
    (nvCoreCliWrite_edits _ _).trans (nvCoreCliWrite_edits _ _)
  unfold nvTelnetSendLoginUser
  exact hwrite.trans (Edits.upd (hwrite.state.trans hstate).symm rfl)

theorem nvTelnetRedrawLine_edits : Edits st (nvTelnetRedrawLine st) :=
  (Edits.upd rfl rfl).trans (nvCoreCliWrite_edits _ _)

/-- A line that is replaced in the shell. -/
theorem redraw_upd_edits {f : TelnetSess → TelnetSess}
    (hstate : (f st.sess).state = st.sess.state) (huser : (f st.sess).user = st.sess.user) :
    Edits st (nvTelnetRedrawLine (st.upd f)) :=
  (Edits.upd hstate huser).trans (nvTelnetRedrawLine_edits _)

/-- A function that edits in the shell and does nothing elsewhere, with its event. -/
theorem edits_log_edit {st st' : TelnetState} (key : EditKey)
    (h : Edits st st') (hsame : st.sess.state ≠ .shell → st' = st) :
    Edits st (st'.log (.edit key st.edited st'.edited)) := by
  refine h.trans (Edits.log ?_)
  by_cases hshell : st.sess.state = .shell
  · exact Or.inl (h.state.trans hshell)
  · exact Or.inr (by rw [hsame hshell])

theorem nvTelnetHistoryUp_edits : Edits st (nvTelnetHistoryUp st) := by
  refine edits_log_edit .up ?_ ?_
  · split_ifs
    · exact Edits.refl st
    · exact redraw_upd_edits st rfl rfl
    · exact redraw_upd_edits st rfl rfl
    · exact Edits.refl st
  · intro hstate
    rw [if_pos (Or.inl hstate)]

theorem nvTelnetHistoryDown_edits : Edits st (nvTelnetHistoryDown st) := by
  refine edits_log_edit .down ?_ ?_
  · split_ifs
    · exact Edits.refl st
    · exact redraw_upd_edits st rfl rfl
    · exact redraw_upd_edits st rfl rfl
  · intro hstate
    rw [if_pos (Or.inl hstate)]

theorem nvTelnetTabComplete_edits : Edits st (nvTelnetTabComplete st) := by
  refine edits_log_edit .tab ?_ ?_
  · split_ifs
    · exact Edits.refl st
    all_goals
      refine Edits.trans ?_ (redraw_upd_edits _ rfl rfl)
      refine Edits.trans ?_ (foldl_write_edits _ _)
      exact Edits.trans (Edits.upd rfl rfl) (Edits.shared _ _ _)
  · intro hstate
    rw [if_pos hstate]

theorem nvTelnetEscapeFeed_edits (c : UInt8) : Edits st (nvTelnetEscapeFeed st c).1 := by
  unfold nvTelnetEscapeFeed
  split
  · exact Edits.refl st
  · extract_lets st' seq
    have hst' : Edits st st' := by
      unfold st'
      split
      · exact Edits.upd rfl rfl
      · exact Edits.refl st
    split_ifs <;> dsimp only
    · exact (hst'.trans (nvTelnetHistoryUp_edits st')).trans (Edits.upd rfl rfl)
    · exact (hst'.trans (nvTelnetHistoryDown_edits st')).trans (Edits.upd rfl rfl)
    · exact hst'.trans (Edits.upd rfl rfl)
    · exact hst'

/-- What the loop of `nv_telnet_feed` does first with a byte. -/
theorem tryEscape_edits (c : UInt8) : Edits st (tryEscape (st.log (.byte c)) c).1 := by
  have hbyte : Edits st (st.log (.byte c)) := Edits.log trivial
  unfold tryEscape
  split
  · exact hbyte.trans (nvTelnetEscapeFeed_edits _ c)
  · exact hbyte

/-- The byte submits the line. -/
def submits (c : UInt8) : Bool :=
  c = 13 ∨ c = 10 ∧ 0 < st.sess.lineLen

theorem nvTelnetInput_submits (env : TelnetEnv) {c : UInt8} (h : submits st c = true) :
    nvTelnetInput env st c = nvTelnetProcessLine env st := by
  simp only [submits, decide_eq_true_eq] at h
  rcases h with rfl | ⟨rfl, hlen⟩
  · rfl
  · simp [nvTelnetInput, hlen]

theorem nvTelnetInput_edits (env : TelnetEnv) {c : UInt8} (h : submits st c = false) :
    Edits st (nvTelnetInput env st c) := by
  simp only [submits, decide_eq_false_iff_not, not_or, not_and] at h
  unfold nvTelnetInput
  rw [if_neg h.1]
  split_ifs with hlf hlen
  · exact absurd hlen (h.2 hlf)
  · exact Edits.refl st
  · exact (Edits.upd rfl rfl).trans (nvCoreCliWrite_edits _ _)
  · exact Edits.refl st
  · exact nvTelnetTabComplete_edits st
  · exact Edits.refl st
  · exact Edits.refl st
  · exact ((Edits.upd rfl rfl).trans (Edits.upd rfl rfl)).trans (nvTelnetWriteRaw_edits _ _)
  · exact (Edits.upd rfl rfl).trans (nvTelnetWriteRaw_edits _ _)
  · exact Edits.refl st

end Functions

section Submit

variable (env : TelnetEnv) (st : TelnetState)

/-- The line that `nv_telnet_process_line` submits. -/
def TelnetState.submitted (st : TelnetState) : CString :=
  (st.sess.line.poke st.sess.lineLen 0).text

def TelnetState.submitTrace (st : TelnetState) : List TelnetEvent :=
  st.trace ++ [.submit st.sess.state st.submitted st.cli.credentials]

/-- `st'` has the trace `tr` followed by events of editing. -/
def Follows (state : TelnetLogin) (tr : List TelnetEvent) (st' : TelnetState) : Prop :=
  ∃ more, st'.trace = tr ++ more ∧ ∀ e ∈ more, e.Editing state

/-- The session with its line terminated and submitted. -/
def TelnetState.submit (st : TelnetState) : TelnetState :=
  (st.upd fun s => { s with line := s.line.poke s.lineLen 0 }).log
    (.submit st.sess.state st.submitted st.cli.credentials)

/-- What is written after the submission, before fields of the session change. -/
theorem follows_submit
    {st st' : TelnetState} (h : Edits st.submit st') (f : TelnetSess → TelnetSess) :
    (st'.upd f).freed = st.freed ∧ Follows st.sess.state st.submitTrace (st'.upd f) := by
  obtain ⟨more, htr, hmore⟩ := h.trace
  exact ⟨h.freed, more, htr, hmore⟩

theorem nvTelnetHistoryAdd_edits (line : CString) : Edits st (nvTelnetHistoryAdd st line) := by
  unfold nvTelnetHistoryAdd
  split_ifs
  · exact Edits.refl st
  · exact Edits.refl st
  · exact Edits.upd rfl rfl
  · exact Edits.upd rfl rfl

theorem nvTelnetProcessLine_user_eq (hstate : st.sess.state = .user) :
    nvTelnetProcessLine env st =
      nvTelnetSendLoginPass (st.submit.upd fun s =>
        { s with user := s.user.snprintf st.submitted, lineLen := 0 }) := by
  simp only [nvTelnetProcessLine, TelnetState.submit, TelnetState.submitted,
    TelnetState.upd, TelnetState.log, hstate]

theorem nvTelnetProcessLine_user (hstate : st.sess.state = .user) :
    (nvTelnetProcessLine env st).sess.state = .pass ∧
      (nvTelnetProcessLine env st).sess.user.text = st.submitted.take 63 ∧
      (nvTelnetProcessLine env st).freed = st.freed ∧
      Follows .user st.submitTrace (nvTelnetProcessLine env st) := by
  have heq := nvTelnetProcessLine_user_eq env st hstate
  have hwrite := nvCoreCliWrite_edits
    (st.submit.upd fun s => { s with user := s.user.snprintf st.submitted, lineLen := 0 })
    (lit "\r\npassword: ").bytes
  refine ⟨by rw [heq]; rfl, ?_, ?_, ?_⟩
  · rw [heq]
    exact (congrArg CBuffer.text hwrite.user).trans (CBuffer.text_snprintf _ _ (by decide))
  · rw [heq]
    exact hwrite.freed
  · rw [heq]
    obtain ⟨more, htr, hmore⟩ := hwrite.trace
    exact ⟨more, htr, fun e he => hstate ▸ hmore e he⟩

theorem nvTelnetProcessLine_pass_eq (hstate : st.sess.state = .pass) :
    nvTelnetProcessLine env st =
      if nvTelnetAuth st.cli st.sess.user.text st.submitted then
        nvTelnetSendShell (st.submit.upd fun s => { s with lineLen := 0 })
      else
        nvTelnetSendLoginUser env
          ((nvCoreCliWrite st.submit (lit "\r\nlogin incorrect\r\n").bytes).upd fun s =>
            { s with lineLen := 0 }) := by
  simp only [nvTelnetProcessLine, TelnetState.submit, TelnetState.submitted,
    TelnetState.upd, TelnetState.log, hstate]

/-- A password ends the login, or starts it again. -/
theorem nvTelnetProcessLine_pass (hstate : st.sess.state = .pass) :
    (((nvTelnetProcessLine env st).sess.state = .shell ∧
        st.sess.user.text = st.cli.credentials.username ∧
        st.submitted = st.cli.credentials.password) ∨
      (nvTelnetProcessLine env st).sess.state = .user) ∧
    (nvTelnetProcessLine env st).freed = st.freed ∧
    Follows .pass st.submitTrace (nvTelnetProcessLine env st) := by
  rw [nvTelnetProcessLine_pass_eq env st hstate, ← hstate]
  split_ifs with hauth
  · simp only [nvTelnetAuth, Bool.and_eq_true, nvSecureStrEqual_iff] at hauth
    refine ⟨Or.inl ⟨rfl, hauth⟩, follows_submit ?_ _⟩
    exact ((Edits.upd rfl rfl).trans (nvCoreCliWrite_edits _ _)).trans
      (nvCoreCliWrite_edits _ _)
  · refine ⟨Or.inr rfl, follows_submit ?_ _⟩
    exact (((nvCoreCliWrite_edits _ _).trans (Edits.upd rfl rfl)).trans
      (nvCoreCliWrite_edits _ _)).trans (nvCoreCliWrite_edits _ _)

/-- What the command returns that the line runs in the shell. -/
def TelnetState.executed (env : TelnetEnv) (st : TelnetState) : CliState × Int :=
  nvCoreCliExecuteLine env.cli st.cli st.sess.fd st.submitted true

/-- The state in which a command starts. -/
def TelnetState.atExecute (st : TelnetState) : TelnetState :=
  nvCoreCliWrite (nvTelnetHistoryAdd st.submit st.submitted) (lit "\r\n").bytes

theorem TelnetState.atExecute_eq :
    st.atExecute.cli = st.cli ∧ st.atExecute.sess.fd = st.sess.fd := by
  unfold TelnetState.atExecute nvCoreCliWrite nvTelnetHistoryAdd
  split_ifs <;> exact ⟨rfl, rfl⟩

/-- The state after the command, before the session is closed or prompts again. -/
def TelnetState.afterExecute (env : TelnetEnv) (st : TelnetState) : TelnetState :=
  ({ st.atExecute with cli := (st.executed env).1 }.log
    (.execute st.submitted (st.executed env).2)).upd fun s =>
      { s with lineLen := 0, historyPos := -1, escLen := 0 }

theorem nvTelnetProcessLine_shell_eq (hstate : st.sess.state = .shell) :
    nvTelnetProcessLine env st =
      if (st.executed env).2 = nvCliCloseSession then
        nvTelnetSessRemove env (st.afterExecute env)
      else if (st.executed env).1.quit then st.afterExecute env
      else nvCoreCliPrintPrompt (st.afterExecute env) := by
  obtain ⟨hcli, hfd⟩ := st.atExecute_eq
  simp only [TelnetState.executed, TelnetState.afterExecute, ← hcli, ← hfd]
  simp only [nvTelnetProcessLine, TelnetState.submit, TelnetState.submitted, TelnetState.upd,
    TelnetState.log, TelnetState.atExecute, hstate]

theorem nvTelnetProcessLine_shell (hstate : st.sess.state = .shell) :
    ∃ more, (∀ e ∈ more, e.Editing .shell) ∧
      ((st.executed env).2 = nvCliCloseSession ∧
          (nvTelnetProcessLine env st).freed = true ∧
          (nvTelnetProcessLine env st).trace =
            st.submitTrace ++ more ++ [TelnetEvent.execute st.submitted nvCliCloseSession] ++
              [TelnetEvent.remove] ∨
        (st.executed env).2 ≠ nvCliCloseSession ∧
          (nvTelnetProcessLine env st).freed = st.freed ∧
          Follows .shell
            (st.submitTrace ++ more ++ [TelnetEvent.execute st.submitted (st.executed env).2])
            (nvTelnetProcessLine env st)) := by
  have hat : Edits st.submit st.atExecute :=
    (nvTelnetHistoryAdd_edits _ _).trans (nvCoreCliWrite_edits _ _)
  obtain ⟨more, htr, hmore⟩ := hat.trace
  have hafter : (st.afterExecute env).trace =
      st.submitTrace ++ more ++ [TelnetEvent.execute st.submitted (st.executed env).2] :=
    congrArg (· ++ [_]) htr
  have hstate' : (st.afterExecute env).sess.state = .shell := hat.state.trans hstate
  refine ⟨more, fun e he => hstate ▸ hmore e he, ?_⟩
  rw [nvTelnetProcessLine_shell_eq env st hstate]
  split_ifs with hrc hquit
  · exact Or.inl ⟨hrc, rfl, by rw [← hrc, ← hafter]; rfl⟩
  · exact Or.inr ⟨hrc, hat.freed, [], by simp [hafter]⟩
  · have hwrite := nvCoreCliWrite_edits (st.afterExecute env) (lit "nv> ").bytes
    obtain ⟨more', htr', hmore'⟩ := hwrite.trace
    refine Or.inr ⟨hrc, hwrite.freed.trans hat.freed, more', ?_, fun e he => hstate' ▸ hmore' e he⟩
    rw [← hafter]
    exact htr'

theorem nvTelnetProcessLine_trace_grows : st.trace <+: (nvTelnetProcessLine env st).trace := by
  have hsubmit : st.trace <+: st.submitTrace := List.prefix_append _ _
  cases hstate : st.sess.state with
  | user =>
      obtain ⟨-, -, -, more, htr, -⟩ := nvTelnetProcessLine_user env st hstate
      exact hsubmit.trans ⟨more, htr.symm⟩
  | pass =>
      obtain ⟨-, -, more, htr, -⟩ := nvTelnetProcessLine_pass env st hstate
      exact hsubmit.trans ⟨more, htr.symm⟩
  | shell =>
      obtain ⟨more, -, ⟨-, -, htr⟩ | ⟨-, -, more', htr, -⟩⟩ :=
        nvTelnetProcessLine_shell env st hstate
      · exact hsubmit.trans ⟨_, by rw [htr, List.append_assoc, List.append_assoc]⟩
      · exact hsubmit.trans ⟨_, by rw [htr, List.append_assoc, List.append_assoc]⟩

theorem nvTelnetInput_freed {st : TelnetState} (c : UInt8) (h : st.freed = true) :
    (nvTelnetInput env st c).freed = true := by
  cases hsub : submits st c with
  | false => exact (nvTelnetInput_edits st env hsub).freed.trans h
  | true =>
      rw [nvTelnetInput_submits st env hsub]
      cases hstate : st.sess.state with
      | user => exact (nvTelnetProcessLine_user env st hstate).2.2.1.trans h
      | pass => exact (nvTelnetProcessLine_pass env st hstate).2.1.trans h
      | shell =>
          obtain ⟨-, -, ⟨-, hfreed, -⟩ | ⟨-, hfreed, -⟩⟩ :=
            nvTelnetProcessLine_shell env st hstate
          · exact hfreed
          · exact hfreed.trans h

end Submit

section Kept

namespace TelnetSess

/-- The line gets its terminator, as in `nv_telnet_redraw_line`. -/
def terminate (s : TelnetSess) : TelnetSess :=
  { s with line := s.line.poke s.lineLen 0 }

/-- What a printable character does to the session. -/
def typed (s : TelnetSess) (c : UInt8) : TelnetSess :=
  if s.lineLen < lineMax - 1 then
    let s :=
      if s.state = .shell ∧ 0 ≤ s.historyPos then
        { s with historyPos := -1, lineLen := 0, line := s.line.poke 0 0 }
      else s
    { s with line := s.line.poke s.lineLen c, lineLen := s.lineLen + 1 }
  else s

end TelnetSess

variable (st : TelnetState)

theorem sess_write (text : List UInt8) : (nvCoreCliWrite st text).sess = st.sess := by
  unfold nvCoreCliWrite
  split <;> rfl

theorem sess_writeRaw (text : List UInt8) : (nvTelnetWriteRaw st text).sess = st.sess := by
  unfold nvTelnetWriteRaw
  split <;> rfl

/-- The session when `nv_telnet_tab_complete` hands its line over. -/
def TelnetState.atTab (st : TelnetState) : TelnetState :=
  let st := st.upd fun s =>
    { s with
      historyPos := if 0 ≤ s.historyPos then -1 else s.historyPos
      line := s.line.poke s.lineLen 0 }
  { st with cli := if st.sess.fd < 0 then st.cli else nvCoreCliInit st.cli }

/-- What `nv_core_cli_tab_complete` makes of the line. -/
def TelnetState.completion (st : TelnetState) : Completion lineMax :=
  nvCoreCliTabComplete st.atTab.cli.cmds st.atTab.sess.fd st.atTab.sess.line st.atTab.sess.lineLen

def TelnetState.completed (st : TelnetState) : TelnetState :=
  nvTelnetRedrawLine ((st.completion.out.foldl nvCoreCliWrite st.atTab).upd fun s =>
    { s with line := st.completion.line, lineLen := st.completion.lineLen })

theorem completed_edits : Edits st st.completed :=
  (((Edits.upd rfl rfl).trans (Edits.shared _ _ _)).trans (foldl_write_edits _ _)).trans
    (redraw_upd_edits _ rfl rfl)

theorem nvTelnetTabComplete_eq :
    nvTelnetTabComplete st =
      if st.sess.state ≠ .shell then st.log (.edit .tab st.edited st.edited)
      else st.completed.log (.edit .tab st.edited st.completed.edited) := by
  unfold nvTelnetTabComplete
  by_cases hshell : st.sess.state ≠ .shell
  · simp only [if_pos hshell]
  · simp only [if_neg hshell]
    rfl

/-- What handling a byte outside escape sequences keeps, the removal of the session included. -/
structure KeptInput (env : TelnetEnv) (P : TelnetState → Prop) : Prop where
  log : ∀ {st} e, P st → P (st.log e)
  terminate : ∀ {st}, P st → P (st.upd TelnetSess.terminate)
  atTab : ∀ {st}, P st → P st.atTab
  complete : ∀ {st} cmds fd, P st → P (st.upd fun s =>
    { s with
      line := (nvCoreCliTabComplete cmds fd s.line s.lineLen).line
      lineLen := (nvCoreCliTabComplete cmds fd s.line s.lineLen).lineLen })
  typed : ∀ {st c}, ¬c < 32 → P st → P (st.upd (·.typed c))
  backspace : ∀ {st}, P st → P (st.upd fun s => { s with lineLen := s.lineLen - 1 })
  clearLine : ∀ {st}, P st → P (st.upd fun s => { s with lineLen := 0 })
  setUser : ∀ {st} name, P st → P (st.upd fun s => { s with user := s.user.snprintf name })
  setState : ∀ {st} state, P st → P (st.upd fun s => { s with state := state })
  clearHistory : ∀ {st}, P st → P (st.upd fun s => { s with historyPos := -1, historyCount := 0 })
  leaveHistory : ∀ {st}, P st → P (st.upd fun s => { s with historyPos := -1 })
  endEscape : ∀ {st}, P st → P (st.upd fun s => { s with escLen := 0 })
  historyAdd : ∀ {st} line, P st → P (nvTelnetHistoryAdd st line)
  execute : ∀ {st} fd line, P st →
    P { st with cli := (nvCoreCliExecuteLine env.cli st.cli fd line true).1 }
  remove : ∀ {st}, P st → P (nvTelnetSessRemove env st)

namespace KeptInput

variable {env : TelnetEnv} {P : TelnetState → Prop} {st : TelnetState} (h : KeptInput env P)
include h

theorem write (text : List UInt8) (hst : P st) : P (nvCoreCliWrite st text) := by
  unfold nvCoreCliWrite
  split
  · exact hst
  · exact h.log _ hst

theorem writeRaw (text : List UInt8) (hst : P st) : P (nvTelnetWriteRaw st text) := by
  unfold nvTelnetWriteRaw
  split
  · exact hst
  · exact h.log _ hst

theorem tabComplete (hst : P st) : P (nvTelnetTabComplete st) := by
  rw [nvTelnetTabComplete_eq]
  split_ifs
  · exact h.log _ hst
  · have hsess : (st.completion.out.foldl nvCoreCliWrite st.atTab).sess = st.atTab.sess :=
      Transition.run_unchanged TelnetState.sess sess_write st.atTab st.completion.out
    have hout : P (st.completion.out.foldl nvCoreCliWrite st.atTab) :=
      Transition.run_invariant (fun _ text hst => h.write text hst) (h.atTab hst) _
    have hput := h.complete st.atTab.cli.cmds st.atTab.sess.fd hout
    refine h.log _ (h.write _ (h.terminate ?_))
    unfold TelnetState.upd at hput ⊢
    rw [hsess] at hput ⊢
    exact hput

theorem sendLoginUser (hst : P st) : P (nvTelnetSendLoginUser env st) := by
  unfold nvTelnetSendLoginUser
  exact h.setState .user (h.write _ (h.write _ hst))

theorem sendShell (hst : P st) : P (nvTelnetSendShell st) := by
  have hshell {st' : TelnetState} (hst' : P st') : P (st'.upd fun s =>
      { s with state := .shell, historyPos := -1, historyCount := 0, escLen := 0 }) := by
    have hdone := h.setState .shell (h.clearHistory (h.endEscape hst'))
    exact hdone
  unfold nvTelnetSendShell
  exact hshell (h.write _ (h.write _ hst))

theorem processLine (hst : P st) : P (nvTelnetProcessLine env st) := by
  have hsubmit : P st.submit := h.log _ (h.terminate hst)
  cases hstate : st.sess.state with
  | user =>
      have hnamed := h.clearLine (h.setUser st.submitted hsubmit)
      rw [nvTelnetProcessLine_user_eq env st hstate, nvTelnetSendLoginPass]
      exact h.setState .pass (h.write _ hnamed)
  | pass =>
      rw [nvTelnetProcessLine_pass_eq env st hstate]
      split_ifs
      · exact h.sendShell (h.clearLine hsubmit)
      · exact h.sendLoginUser (h.clearLine (h.write _ hsubmit))
  | shell =>
      have hclear {st' : TelnetState} (hst' : P st') :
          P (st'.upd fun s => { s with lineLen := 0, historyPos := -1, escLen := 0 }) := by
        have hdone := h.leaveHistory (h.endEscape (h.clearLine hst'))
        exact hdone
      have hafter : P (st.afterExecute env) := by
        have hat : P st.atExecute := h.write _ (h.historyAdd _ hsubmit)
        have hdone := h.log (.execute st.submitted (st.executed env).2)
          (h.execute st.sess.fd st.submitted hat)
        rw [st.atExecute_eq.1] at hdone
        exact hclear hdone
      rw [nvTelnetProcessLine_shell_eq env st hstate]
      split_ifs
      · exact h.remove hafter
      · exact hafter
      · exact h.write _ hafter

/-- A session starts with a message and the request for a user name. -/
theorem sessStart {cli : CliState} {sessions : List Nat} {self : Nat} {cfd : Int}
    (hst : P ⟨cli, self :: sessions, newSess self cfd, false, []⟩) :
    P (nvTelnetSessStart env cli sessions self cfd) := by
  unfold nvTelnetSessStart nvTelnetWriteRaw
  dsimp only
  split_ifs
  · exact h.sendLoginUser hst
  · exact h.sendLoginUser (h.log (.out gTelnetInit) hst)

theorem input (c : UInt8) (hst : P st) : P (nvTelnetInput env st c) := by
  unfold nvTelnetInput
  split_ifs with _ _ _ _ _ _ _ hcontrol hroom hshown
  · exact h.processLine hst
  · exact h.processLine hst
  · exact hst
  · exact h.write _ (h.backspace hst)
  · exact hst
  · exact h.tabComplete hst
  · exact hst
  · exact hst
  · have htyped : P { st with sess := st.sess.typed c } := h.typed hcontrol hst
    rw [TelnetSess.typed, if_pos hroom, if_pos hshown] at htyped
    exact h.writeRaw _ htyped
  · have htyped : P { st with sess := st.sess.typed c } := h.typed hcontrol hst
    rw [TelnetSess.typed, if_pos hroom, if_neg hshown] at htyped
    exact h.writeRaw _ htyped
  · exact hst

end KeptInput

end Kept

end Libnv.Cli
