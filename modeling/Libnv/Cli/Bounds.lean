import Libnv.Cli.Checked

/-!
# Bounds of a session

Whatever its client sends, the counters of a session stay inside their arrays, the
strings it keeps end inside theirs, and no function writes outside an array.

The line is treated in `LineOk`; what a session keeps beside its line is `SessOk`, which
no function can break: every string is stored with `snprintf`, and every counter is
compared with its limit.  Names of commands are those that fit into a node.
-/

namespace Libnv.Cli

open Transition CText

/-- What a session must keep to. -/
structure InBounds (s : TelnetSess) : Prop where
  lineLen : s.lineLen ≤ 511
  historyCount : s.historyCount ≤ 32
  historyPos : -1 ≤ s.historyPos ∧ s.historyPos < s.historyCount
  escLen : s.escLen ≤ 7
  user : 0 ∈ s.user.toList
  historyDraft : 0 ∈ s.historyDraft.toList
  history : ∀ row ∈ s.history.toList.take s.historyCount, 0 ∈ row.toList

/-- The names of the commands are such as `nv_cli_add_node` stores. -/
def NamesFit (s : CliState) : Prop :=
  ∀ cmd ∈ s.cmds, Fits cmd.name

/-- The handlers that other code registers keep the names so. -/
def KeepsNames (env : CliEnv) : Prop :=
  ∀ n s argv, NamesFit s → NamesFit (env.plugin n s argv).1

/-- Other code of the process leaves such names. -/
def TelnetAction.NamesFit : TelnetAction → Prop
  | .others cli _ => Cli.NamesFit cli
  | .readable _ | .cleanup => True

section Names

variable {s : CliState}

theorem NamesFit.init (h : NamesFit s) : NamesFit (nvCoreCliInit s) :=
  fits_registryStep ⟨s, fun _ => none⟩ .init h

theorem NamesFit.call {env : CliEnv} (henv : KeepsNames env) (h : NamesFit s) (argv : List CString)
    (handler : CliHandler) : NamesFit (handler.call env s argv).1 := by
  cases handler with
  | reload =>
      rw [CliHandler.call, nvCliCmdReload]
      split <;> exact h
  | exit =>
      rw [CliHandler.call, nvCliCmdExit]
      split <;> exact h
  | plugin n => exact henv n s argv h
  | _ => exact h

theorem NamesFit.executeLine {env : CliEnv} (henv : KeepsNames env) (h : NamesFit s) (fd : Int)
    (line : CString) (interactive : Bool) :
    NamesFit (nvCoreCliExecuteLine env s fd line interactive).1 := by
  have hinit := h.init
  simp only [nvCoreCliExecuteLine]
  split_ifs
  · exact h
  · exact hinit
  · split
    · exact hinit
    · split
      · exact NamesFit.call henv (s := { nvCoreCliInit s with interactive := interactive }) hinit _ _
      · exact hinit

theorem NamesFit.atTab {st : TelnetState} (h : NamesFit st.cli) : NamesFit st.atTab.cli := by
  unfold TelnetState.atTab
  dsimp only
  split_ifs
  · exact h
  · exact h.init

end Names

section Session

/-- What a session keeps to beside its line. -/
structure SessOk (count : Nat) (pos : Int) (escLen : Nat) (user : CBuffer 64)
    (draft : CBuffer lineMax) (history : Vector (CBuffer lineMax) 32) : Prop where
  count_le : count ≤ 32
  pos_ge : -1 ≤ pos
  pos_lt : pos < count
  escLen_le : escLen ≤ 7
  user_ends : 0 ∈ user.toList
  draft_ends : 0 ∈ draft.toList
  rows_end : ∀ row ∈ history.toList, 0 ∈ row.toList

/-- The session is in order, but for its line. -/
abbrev TelnetSess.Ok (s : TelnetSess) : Prop :=
  SessOk s.historyCount s.historyPos s.escLen s.user s.historyDraft s.history

theorem nul_mem_snprintf {n : Nat} (hn : 0 < n) (buf : CBuffer n) (text : CString) :
    0 ∈ (buf.snprintf text).toList := by
  obtain ⟨rest, hlist⟩ := CBuffer.snprintf_toList buf text hn
  rw [hlist]
  exact List.mem_append_right _ List.mem_cons_self

section Rules

variable {count : Nat} {pos : Int} {escLen : Nat} {user : CBuffer 64} {draft : CBuffer lineMax}
  {history : Vector (CBuffer lineMax) 32}

/-- Another entry is shown, or none. -/
theorem SessOk.move (h : SessOk count pos escLen user draft history) (pos' : Int) (hge : -1 ≤ pos')
    (hlt : pos' < count) {draft' : CBuffer lineMax} (hdraft : 0 ∈ draft'.toList) :
    SessOk count pos' escLen user draft' history :=
  { h with pos_ge := hge, pos_lt := hlt, draft_ends := hdraft }

/-- A row gets a string, whatever was there before. -/
theorem SessOk.store
    (h : SessOk count pos escLen user draft history) {count' : Nat} (hcount : count' ≤ 32)
    {rows : Vector (CBuffer lineMax) 32} (hrows : ∀ row ∈ rows.toList, row ∈ history.toList)
    (i : Nat) (row : CBuffer lineMax) (line : CString) :
    SessOk count' (-1) escLen user draft (rows.setIfInBounds i (row.snprintf line)) :=
  { h with
    count_le := hcount
    pos_ge := Int.le_refl _
    pos_lt := by omega
    rows_end := by
      intro row' hrow'
      rw [Vector.toList_setIfInBounds] at hrow'
      rcases List.mem_or_eq_of_mem_set hrow' with hrow' | rfl
      · exact h.rows_end row' (hrows row' hrow')
      · exact nul_mem_snprintf (by decide) row line }

end Rules

variable {s : TelnetSess}

theorem TelnetSess.Ok.recalled (h : s.Ok) (entry : CString) : (s.putLine entry).terminate.Ok := h

theorem TelnetSess.Ok.recallUp (h : s.Ok) : s.recallUp.Ok := by
  have hcount := h.count_le
  have hpos := h.pos_lt
  unfold TelnetSess.recallUp
  split_ifs with hleft hfirst hnext
  · exact h
  · refine TelnetSess.Ok.recalled ?_ _
    exact h.move (s.historyCount - 1) (by omega) (by omega) (nul_mem_snprintf (by decide) _ _)
  · refine TelnetSess.Ok.recalled ?_ _
    exact h.move (s.historyPos - 1) (by omega) (by omega) h.draft_ends
  · exact h

theorem TelnetSess.Ok.recallDown (h : s.Ok) : s.recallDown.Ok := by
  have hcount := h.count_le
  unfold TelnetSess.recallDown
  split_ifs with hleft hlast
  · exact h
  · refine TelnetSess.Ok.recalled ?_ _
    exact h.move (-1) (by omega) (by omega) h.draft_ends
  · refine TelnetSess.Ok.recalled ?_ _
    exact h.move (s.historyPos + 1) (by omega) (by omega) h.draft_ends

theorem TelnetSess.Ok.typed (h : s.Ok) {c : UInt8} : (s.typed c).Ok := by
  unfold TelnetSess.typed
  dsimp only
  split_ifs
  · exact h.move (-1) (by omega) (by omega) h.draft_ends
  · exact h
  · exact h

theorem escapePut_le {escape : CBuffer 8 × Nat} (h : escape.2 ≤ 7) (c : UInt8) :
    (escapePut escape c).2 ≤ 7 := by
  unfold escapePut
  split_ifs with hroom
  · exact hroom
  · exact h

end Session

section Invariant

/-- A session that was not closed is in order, but for its line. -/
def OpenSessOk (st : TelnetState) : Prop :=
  st.freed = true ∨ st.sess.Ok

variable {env : TelnetEnv} {st : TelnetState}

theorem TelnetSess.Ok.historyAdd (h : st.sess.Ok) (line : CString) :
    (nvTelnetHistoryAdd st line).sess.Ok := by
  unfold nvTelnetHistoryAdd
  split_ifs with _ _ hroom
  · exact h
  · exact h
  · exact h.store hroom (fun _ hrow => hrow) _ _ line
  · refine h.store h.count_le (fun row hrow => ?_) _ _ line
    have hdrop : row ∈ st.sess.history.toList.drop 1 ++ st.sess.history.toList.drop 31 := hrow
    rcases List.mem_append.mp hdrop with hrow | hrow
    · exact List.mem_of_mem_drop hrow
    · exact List.mem_of_mem_drop hrow

theorem openSessOk_kept (env : TelnetEnv) : Kept env OpenSessOk where
  log _ h := h
  terminate h := h
  recallUp h := h.imp_right TelnetSess.Ok.recallUp
  recallDown h := h.imp_right TelnetSess.Ok.recallDown
  atTab h := h.imp_right fun h => by
    have hge := h.pos_ge
    have hlt := h.pos_lt
    refine h.move (if 0 ≤ TelnetSess.historyPos _ then -1 else _) ?_ ?_ h.draft_ends
    · split_ifs <;> omega
    · split_ifs <;> omega
  complete _ _ h := h
  takeByte c h := h.imp_right fun h => { h with escLen_le := escapePut_le h.escLen_le c }
  endEscape h := h.imp_right fun h => { h with escLen_le := Nat.zero_le _ }
  typed _ h := h.imp_right fun h => TelnetSess.Ok.typed h
  backspace h := h
  clearLine h := h
  setUser _ h := h.imp_right fun h => { h with user_ends := nul_mem_snprintf (by decide) _ _ }
  setState _ h := h
  clearHistory h := h.imp_right fun h =>
    { h with
      count_le := Nat.zero_le _
      pos_ge := Int.le_refl _
      pos_lt := show (-1 : Int) < 0 by decide }
  leaveHistory h := h.imp_right fun h => h.move (-1) (by omega) (by omega) h.draft_ends
  historyAdd line h :=
    h.imp (nvTelnetHistoryAdd_edits _ line).freed.trans fun h => TelnetSess.Ok.historyAdd h line
  execute _ _ h := h
  remove _ := Or.inl rfl

theorem namesFit_kept (henv : KeepsNames env.cli) : Kept env fun st => NamesFit st.cli where
  log _ h := h
  terminate h := h
  recallUp h := h
  recallDown h := h
  atTab h := h.atTab
  complete _ _ h := h
  takeByte _ h := h
  endEscape h := h
  typed _ h := h
  backspace h := h
  clearLine h := h
  setUser _ h := h
  setState _ h := h
  clearHistory h := h
  leaveHistory h := h
  historyAdd line h := by
    unfold nvTelnetHistoryAdd
    split_ifs <;> exact h
  execute fd line h := h.executeLine henv fd line true
  remove h := h

/-- What holds of a session between two bytes. -/
structure Sound (st : TelnetState) : Prop where
  line : OpenLineOk st
  sess : OpenSessOk st
  names : NamesFit st.cli

theorem Sound.log (h : Sound st) (e : TelnetEvent) : Sound (st.log e) :=
  ⟨h.line, h.sess, h.names⟩

theorem Sound.escaped (henv : KeepsNames env.cli) (h : Sound st) (c : UInt8) :
    Sound (tryEscape (st.log (.byte c)) c).1 :=
  tryEscape_invariant (P := Sound) (fun _ c h =>
    ⟨(openLineOk_kept env).escapeFeed c h.line, (openSessOk_kept env).escapeFeed c h.sess,
      (namesFit_kept henv).escapeFeed c h.names⟩) (h.log _) c

theorem Sound.input (henv : KeepsNames env.cli) (h : Sound st) (c : UInt8) :
    Sound (nvTelnetInput env st c) where
  line := (openLineOk_kept env).input c h.line
  sess := (openSessOk_kept env).input c h.sess
  names := (namesFit_kept henv).input c h.names

theorem Sound.feed (henv : KeepsNames env.cli) (h : Sound st) (bs : List UInt8) :
    Sound (nvTelnetFeed env st bs) where
  line := (openLineOk_kept env).feed bs h.line
  sess := (openSessOk_kept env).feed bs h.sess
  names := (namesFit_kept henv).feed bs h.names

theorem Sound.inBounds (h : Sound st) (hopen : st.freed = false) : InBounds st.sess := by
  have hline := h.line.resolve_left (by simp [hopen])
  have hsess := h.sess.resolve_left (by simp [hopen])
  exact {
    lineLen := hline.fits
    historyCount := hsess.count_le
    historyPos := ⟨hsess.pos_ge, hsess.pos_lt⟩
    escLen := hsess.escLen_le
    user := hsess.user_ends
    historyDraft := hsess.draft_ends
    history := fun row hrow => hsess.rows_end row (List.mem_of_mem_take hrow) }

theorem Sound.input_checked
    (env : TelnetEnv) (junk : TelnetState → Checked.TabBuffers) (h : Sound st)
    (hopen : st.freed = false) (c : UInt8) :
    Checked.nvTelnetInput env junk st c = some (nvTelnetInput env st c) :=
  Checked.nvTelnetInput_eq env junk (h.line.resolve_left (by simp [hopen]))
    (fun cmd hcmd => (h.names.atTab cmd hcmd).2) c

/-- Every write of `nv_telnet_feed` goes into its array. -/
theorem Sound.feed_checked
    (henv : KeepsNames env.cli) (junk : TelnetState → Checked.TabBuffers) (h : Sound st)
    (bs : List UInt8) : Checked.nvTelnetFeed env junk st bs = some (nvTelnetFeed env st bs) := by
  induction hn : bs.length using Nat.strong_induction_on generalizing st bs with
  | _ n ih =>
      subst hn
      rcases bs with _ | ⟨c, rest⟩
      · rw [Checked.nvTelnetFeed]
        rfl
      have hrest : rest.length < (c :: rest).length := Nat.lt_succ_self _
      rw [Checked.nvTelnetFeed]
      by_cases hfreed : st.freed = true
      · rw [if_pos hfreed]
        rfl
      · have hnext := h.escaped henv c
        have hsame := (tryEscape_edits st c).freed
        rw [if_neg hfreed, Checked.tryEscape_eq, nvTelnetFeed, Option.bind_eq_bind, Option.bind_some]
        generalize tryEscape (st.log (.byte c)) c = step at hnext hsame ⊢
        obtain ⟨st', taken⟩ := step
        dsimp only at hnext hsame ⊢
        have hopen : st'.freed = false := hsame.trans (Bool.eq_false_iff.mpr hfreed)
        rw [hnext.input_checked env junk hopen]
        split_ifs with htaken hiac
        · exact ih _ hrest hnext rest rfl
        · rcases rest with _ | ⟨cmd, _ | ⟨option, rest⟩⟩
          · rfl
          · rfl
          · dsimp only
            split_ifs
            · exact ih _ (by simp only [List.length_cons]; omega) hnext rest rfl
            · exact ih _ (by simp only [List.length_cons]; omega) hnext (option :: rest) rfl
        · exact ih _ hrest (hnext.input henv c) rest rfl

theorem Sound.remove (h : Sound st) : Sound (nvTelnetSessRemove env st) :=
  ⟨Or.inl rfl, Or.inl rfl, h.names⟩

theorem Sound.step
    (henv : KeepsNames env.cli) (junk : TelnetState → Checked.TabBuffers) (h : Sound st)
    {a : TelnetAction} (ha : a.NamesFit) :
    Checked.telnetStep env junk st a = some (telnetStep env st a) ∧ Sound (telnetStep env st a) := by
  cases a with
  | readable input =>
      simp only [Checked.telnetStep, telnetStep]
      split_ifs
      · exact ⟨rfl, h⟩
      · unfold Checked.nvTelnetClientHandler nvTelnetClientHandler
        split_ifs
        · exact ⟨rfl, h⟩
        · rcases input with _ | _ | ⟨c, rest⟩
          · exact ⟨rfl, h.remove⟩
          · exact ⟨rfl, h.remove⟩
          · dsimp only
            rw [h.feed_checked henv junk]
            have hlog := (h.feed henv (c :: rest)).log .testQuit
            rw [Option.bind_eq_bind, Option.bind_some]
            split_ifs
            · exact ⟨rfl, hlog.remove⟩
            · exact ⟨rfl, hlog⟩
  | others cli sessions => exact ⟨rfl, h.line, h.sess, ha⟩
  | cleanup =>
      simp only [Checked.telnetStep, telnetStep]
      split_ifs
      · exact ⟨rfl, h⟩
      · exact ⟨rfl, h.remove⟩

theorem sound_start (henv : KeepsNames env.cli) {cli : CliState} (hcli : NamesFit cli)
    (sessions : List Nat) (self : Nat) (cfd : Int) :
    Sound (nvTelnetSessStart env cli sessions self cfd) where
  line := openLineOk_start env cli sessions self cfd
  sess := by
    have hzero (n : Nat) (hn : 0 < n) : 0 ∈ (CBuffer.zero n).toList := by
      rw [CBuffer.zero, Vector.toList_replicate]
      exact List.mem_replicate.mpr ⟨Nat.ne_of_gt hn, rfl⟩
    refine (openSessOk_kept env).sessStart (Or.inr ?_)
    exact {
      count_le := Nat.zero_le _
      pos_ge := Int.le_refl _
      pos_lt := show (-1 : Int) < 0 by decide
      escLen_le := Nat.zero_le _
      user_ends := hzero 64 (by decide)
      draft_ends := hzero lineMax (by decide)
      rows_end := by
        intro row hrow
        rw [newSess, Vector.toList_replicate] at hrow
        rw [List.eq_of_mem_replicate hrow]
        exact hzero lineMax (by decide) }
  names := (namesFit_kept henv).sessStart hcli

end Invariant

/--
Whatever a session receives, with the bytes of a further chunk that were handled: it is in its
bounds while it is open, and no function wrote outside an array.
-/
theorem nvTelnet_inBounds
    (env : TelnetEnv)
    (henv : KeepsNames env.cli)
    (junk : TelnetState → Checked.TabBuffers)
    (cli : CliState)
    (hcli : NamesFit cli)
    (sessions : List Nat)
    (self : Nat)
    (cfd : Int)
    (as : List TelnetAction)
    (has : ∀ a ∈ as, a.NamesFit)
    (bs : List UInt8) :
    let start := nvTelnetSessStart env cli sessions self cfd
    let st := Transition.run (telnetStep env) start as
    (st.freed = false → InBounds st.sess) ∧
      ((nvTelnetFeed env st bs).freed = false → InBounds (nvTelnetFeed env st bs).sess) ∧
      as.foldlM (Checked.telnetStep env junk) start = some st ∧
      Checked.nvTelnetFeed env junk st bs = some (nvTelnetFeed env st bs) := by
  intro start st
  have hstart : Sound start := sound_start henv hcli sessions self cfd
  have hstep : ∀ st a, Sound st → a.NamesFit →
      Checked.telnetStep env junk st a = some (telnetStep env st a) ∧ Sound (telnetStep env st a) :=
    fun st a h ha => h.step henv junk ha
  obtain ⟨hrun, hst⟩ := foldlM_eq_run hstep hstart has
  exact ⟨hst.inBounds, (hst.feed henv bs).inBounds, hrun, hst.feed_checked henv junk bs⟩

/-- In the shell a client types `st` and completes it. -/
theorem nvTelnet_inBounds_completion :
    let done := nvTelnetFeed plainEnv (afterCommand "st") [9]
    done.freed = false ∧ done.sess.line.text = lit "stat" ∧ InBounds done.sess := by
  have hnames : NamesFit plainCli := fun _ hcmd => absurd hcmd List.not_mem_nil
  have hopen : (nvTelnetFeed plainEnv (afterCommand "st") [9]).freed = false := by decide +kernel
  obtain ⟨-, hbounds, -, -⟩ := nvTelnet_inBounds plainEnv (fun _ _ _ h => h)
    (fun st => ⟨Vector.replicate 32 CString.empty, st.sess.line, st.sess.line, st.sess.line⟩)
    plainCli hnames [] 1 5
    [.readable (some (lit "admin\rcorrect-horse\r").bytes), .readable (some (lit "ls\r").bytes),
      .readable (some (lit "st").bytes)] (by simp [TelnetAction.NamesFit]) [9]
  exact ⟨hopen, by decide +kernel, hbounds hopen⟩

end Libnv.Cli
