import Libnv.Cli.Keys

/-!
# Telnet commands between the data

A client sends data bytes and telnet commands: two bytes, three bytes with an
option, or a subnegotiation between IAC SB and IAC SE.  `nv_telnet_feed` skips the
first two kinds.  Of a subnegotiation it skips the two IAC pairs only, so that its
payload counts as typed; and it sees no command while an escape sequence is open.
So a command goes unnoticed at each of its bytes exactly if it arrives outside an
escape sequence and the bytes of its payload do nothing where they arrive.

The functions only write the trace, they never read it.  Two runs that start from
states with other traces therefore do the same.
-/

namespace Libnv.Cli

open CText

section Trace

/-- The state with other events before those of its trace. -/
def TelnetState.preceded (st : TelnetState) (earlier : List TelnetEvent) : TelnetState :=
  { st with trace := earlier ++ st.trace }

variable (st : TelnetState) (earlier : List TelnetEvent)

theorem sess_preceded : (st.preceded earlier).sess = st.sess := rfl

theorem cli_preceded : (st.preceded earlier).cli = st.cli := rfl

theorem upd_preceded (f : TelnetSess → TelnetSess) :
    (st.preceded earlier).upd f = (st.upd f).preceded earlier := rfl

theorem log_preceded (e : TelnetEvent) :
    (st.preceded earlier).log e = (st.log e).preceded earlier := by
  simp [TelnetState.log, TelnetState.preceded]

theorem write_preceded (text : List UInt8) :
    nvCoreCliWrite (st.preceded earlier) text = (nvCoreCliWrite st text).preceded earlier := by
  simp only [nvCoreCliWrite, sess_preceded, log_preceded]
  split <;> rfl

theorem writeRaw_preceded (text : List UInt8) :
    nvTelnetWriteRaw (st.preceded earlier) text = (nvTelnetWriteRaw st text).preceded earlier := by
  simp only [nvTelnetWriteRaw, sess_preceded, log_preceded]
  split <;> rfl

theorem foldl_write_preceded (texts : List (List UInt8)) :
    texts.foldl nvCoreCliWrite (st.preceded earlier) =
      (texts.foldl nvCoreCliWrite st).preceded earlier := by
  induction texts generalizing st with
  | nil => rfl
  | cons text texts ih => rw [List.foldl_cons, write_preceded, ih, List.foldl_cons]

theorem redraw_preceded :
    nvTelnetRedrawLine (st.preceded earlier) = (nvTelnetRedrawLine st).preceded earlier := by
  simp only [nvTelnetRedrawLine, upd_preceded, write_preceded, sess_preceded]

theorem historyUp_preceded :
    nvTelnetHistoryUp (st.preceded earlier) = (nvTelnetHistoryUp st).preceded earlier := by
  simp only [nvTelnetHistoryUp, sess_preceded, upd_preceded, redraw_preceded]
  split_ifs <;> exact log_preceded _ _ _

theorem historyDown_preceded :
    nvTelnetHistoryDown (st.preceded earlier) = (nvTelnetHistoryDown st).preceded earlier := by
  simp only [nvTelnetHistoryDown, sess_preceded, upd_preceded, redraw_preceded]
  split_ifs <;> exact log_preceded _ _ _

theorem completed_preceded : (st.preceded earlier).completed = st.completed.preceded earlier := by
  have hat : (st.preceded earlier).atTab = st.atTab.preceded earlier := rfl
  have hcompletion : (st.preceded earlier).completion = st.completion := rfl
  simp only [TelnetState.completed, hat, hcompletion, foldl_write_preceded, upd_preceded,
    redraw_preceded]

theorem tabComplete_preceded :
    nvTelnetTabComplete (st.preceded earlier) = (nvTelnetTabComplete st).preceded earlier := by
  simp only [nvTelnetTabComplete_eq, sess_preceded, completed_preceded]
  split_ifs <;> exact log_preceded _ _ _

theorem escapeFeed_preceded (c : UInt8) :
    nvTelnetEscapeFeed (st.preceded earlier) c =
      ((nvTelnetEscapeFeed st c).1.preceded earlier, (nvTelnetEscapeFeed st c).2) := by
  have htake : (st.preceded earlier).takeByte c = (st.takeByte c).preceded earlier := rfl
  have hescape : (st.preceded earlier).escape = st.escape := rfl
  simp only [nvTelnetEscapeFeed_eq, sess_preceded, htake, hescape, upd_preceded,
    historyUp_preceded, historyDown_preceded]
  split_ifs <;> rfl

theorem tryEscape_preceded (c : UInt8) :
    tryEscape (st.preceded earlier) c =
      ((tryEscape st c).1.preceded earlier, (tryEscape st c).2) := by
  simp only [tryEscape, sess_preceded, escapeFeed_preceded]
  split_ifs <;> rfl

theorem sendLoginUser_preceded (env : TelnetEnv) :
    nvTelnetSendLoginUser env (st.preceded earlier) =
      (nvTelnetSendLoginUser env st).preceded earlier := by
  simp only [nvTelnetSendLoginUser, nvCoreCliPrintBanner, write_preceded, upd_preceded]

theorem sendShell_preceded :
    nvTelnetSendShell (st.preceded earlier) = (nvTelnetSendShell st).preceded earlier := by
  simp only [nvTelnetSendShell, nvCoreCliPrintPrompt, write_preceded, upd_preceded]

theorem historyAdd_preceded (line : CString) :
    nvTelnetHistoryAdd (st.preceded earlier) line =
      (nvTelnetHistoryAdd st line).preceded earlier := by
  simp only [nvTelnetHistoryAdd, apply_ite (TelnetState.preceded · earlier)]
  rfl

theorem submit_preceded : (st.preceded earlier).submit = st.submit.preceded earlier := by
  unfold TelnetState.submit
  rw [upd_preceded, log_preceded]
  rfl

theorem afterExecute_preceded (env : TelnetEnv) :
    (st.preceded earlier).afterExecute env = (st.afterExecute env).preceded earlier := by
  have hat : (st.preceded earlier).atExecute = st.atExecute.preceded earlier := by
    simp only [TelnetState.atExecute, submit_preceded, historyAdd_preceded, write_preceded]
    rfl
  have hlog := log_preceded { st.atExecute with cli := (st.executed env).1 } earlier
    (.execute st.submitted (st.executed env).2)
  unfold TelnetState.afterExecute
  rw [hat]
  exact congrArg (TelnetState.upd · _) hlog

theorem sessRemove_preceded (env : TelnetEnv) :
    nvTelnetSessRemove env (st.preceded earlier) = (nvTelnetSessRemove env st).preceded earlier := by
  simp only [nvTelnetSessRemove, log_preceded]
  rfl

theorem processLine_preceded (env : TelnetEnv) :
    nvTelnetProcessLine env (st.preceded earlier) =
      (nvTelnetProcessLine env st).preceded earlier := by
  have hsubmitted : (st.preceded earlier).submitted = st.submitted := rfl
  have hexecuted : (st.preceded earlier).executed env = st.executed env := rfl
  cases hstate : st.sess.state with
  | user =>
      rw [nvTelnetProcessLine_user_eq env st hstate,
        nvTelnetProcessLine_user_eq env (st.preceded earlier) hstate]
      simp only [nvTelnetSendLoginPass, hsubmitted, submit_preceded, upd_preceded, write_preceded]
  | pass =>
      rw [nvTelnetProcessLine_pass_eq env st hstate,
        nvTelnetProcessLine_pass_eq env (st.preceded earlier) hstate]
      simp only [hsubmitted, submit_preceded, upd_preceded, write_preceded, sess_preceded,
        cli_preceded, sendShell_preceded, sendLoginUser_preceded]
      split_ifs <;> rfl
  | shell =>
      rw [nvTelnetProcessLine_shell_eq env st hstate,
        nvTelnetProcessLine_shell_eq env (st.preceded earlier) hstate]
      simp only [hexecuted, afterExecute_preceded, sessRemove_preceded, nvCoreCliPrintPrompt,
        write_preceded]
      split_ifs <;> rfl

theorem echoBackspace_preceded :
    nvTelnetEchoBackspace (st.preceded earlier) = (nvTelnetEchoBackspace st).preceded earlier :=
  write_preceded _ _ _

theorem echoChar_preceded (c : UInt8) :
    nvTelnetEchoChar (st.preceded earlier) c = (nvTelnetEchoChar st c).preceded earlier :=
  writeRaw_preceded _ _ _

theorem input_preceded (env : TelnetEnv) (c : UInt8) :
    nvTelnetInput env (st.preceded earlier) c = (nvTelnetInput env st c).preceded earlier := by
  simp only [nvTelnetInput, apply_ite (TelnetState.preceded · earlier), ← processLine_preceded,
    ← echoBackspace_preceded, ← tabComplete_preceded, ← echoChar_preceded, ← upd_preceded]
  rfl

/-- The run does not depend on what was recorded before it. -/
theorem feed_preceded (env : TelnetEnv) (bs : List UInt8) :
    nvTelnetFeed env (st.preceded earlier) bs = (nvTelnetFeed env st bs).preceded earlier := by
  have hfirst : ∀ {st st' : TelnetState} {c : UInt8} {taken : Bool},
      tryEscape (st.log (.byte c)) c = (st', taken) →
        tryEscape ((st.preceded earlier).log (.byte c)) c = (st'.preceded earlier, taken) := by
    intro st st' c taken h
    rw [log_preceded, tryEscape_preceded, h]
  fun_induction nvTelnetFeed env st bs with
  | case1 => rfl
  | case2 st c rest st' hesc ih =>
      rw [nvTelnetFeed, hfirst hesc]
      exact ih
  | case3 st st' taken htaken hesc =>
      rw [nvTelnetFeed, hfirst hesc]
      simp only [htaken, if_true]
      rfl
  | case4 st st' taken htaken option hesc =>
      rw [nvTelnetFeed, hfirst hesc]
      simp only [htaken, if_true]
      rfl
  | case5 st st' taken htaken cmd option rest hcmd hesc ih =>
      rw [nvTelnetFeed, hfirst hesc]
      simp only [htaken, hcmd, if_true]
      exact ih
  | case6 st st' taken htaken cmd option rest hcmd hesc ih =>
      rw [nvTelnetFeed, hfirst hesc]
      simp only [htaken, hcmd, if_true, if_false]
      exact ih
  | case7 st c rest st' taken hesc htaken hc ih =>
      rw [nvTelnetFeed, hfirst hesc]
      simp only [htaken, hc, if_false]
      rw [input_preceded]
      exact ih

end Trace

theorem SameEffect.refl (st : TelnetState) : SameEffect st st :=
  ⟨rfl, rfl, rfl⟩

theorem SameEffect.symm {st st' : TelnetState} (h : SameEffect st st') : SameEffect st' st :=
  ⟨h.sess.symm, h.cli.symm, h.operations.symm⟩

theorem SameEffect.trans {st st' st'' : TelnetState} (h : SameEffect st st')
    (h' : SameEffect st' st'') : SameEffect st st'' :=
  ⟨h.sess.trans h'.sess, h.cli.trans h'.cli, h.operations.trans h'.operations⟩

/-- A record that is no operation changes nothing in what follows. -/
theorem feed_log_sameEffect (env : TelnetEnv) (st : TelnetState) {e : TelnetEvent}
    (he : e.isOperation = false) (bs : List UInt8) :
    SameEffect (nvTelnetFeed env (st.log e) bs) (nvTelnetFeed env st bs) := by
  have hst : st = { st with trace := [] }.preceded st.trace := by
    simp [TelnetState.preceded]
  have hlog : st.log e = { st with trace := [] }.preceded (st.trace ++ [e]) := by
    simp [TelnetState.preceded, TelnetState.log]
  have hplain := feed_preceded { st with trace := [] } st.trace env bs
  rw [← hst] at hplain
  rw [hplain, hlog, feed_preceded]
  refine ⟨rfl, rfl, ?_⟩
  simp [TelnetState.preceded, List.filter_append, he]

/-- What a client sends: data bytes and complete telnet commands. -/
inductive TelnetItem where
  | data (b : UInt8) (hb : b ≠ 255)
  /-- IAC and a command without an option. -/
  | command (cmd : UInt8) (hcmd : takesOption cmd = false ∧ cmd ≠ 250)
  /-- IAC, one of WILL, WONT, DO and DONT, and the option. -/
  | option (cmd opt : UInt8) (hcmd : takesOption cmd = true)
  /-- IAC SB, the payload and IAC SE. -/
  | subnegotiation (payload : List UInt8)

/-- An IAC in a payload is sent twice. -/
def doubled : List UInt8 → List UInt8
  | [] => []
  | b :: bs => if b = 255 then 255 :: 255 :: doubled bs else b :: doubled bs

def TelnetItem.wire : TelnetItem → List UInt8
  | .data b _ => [b]
  | .command cmd _ => [255, cmd]
  | .option cmd opt _ => [255, cmd, opt]
  | .subnegotiation payload => 255 :: 250 :: (doubled payload ++ [255, 240])

def TelnetItem.typed : TelnetItem → List UInt8
  | .data b _ => [b]
  | .command .. | .option .. | .subnegotiation _ => []

/-- The bytes of a list of items. -/
def wire (items : List TelnetItem) : List UInt8 :=
  items.flatMap TelnetItem.wire

def typedBytes (items : List TelnetItem) : List UInt8 :=
  items.flatMap TelnetItem.typed

/--
A byte that does nothing as input to the session: an IAC, a newline or a backspace on
an empty line, a tab before the login, a character on a full line, or a control
character that the loop ignores.
-/
def idle (s : TelnetSess) (b : UInt8) : Bool :=
  if b = 255 then true
  else if b = 13 ∨ b = 0x1b then false
  else if b = 10 ∨ b = 127 ∨ b = 8 then s.lineLen = 0
  else if b = 9 then s.state ≠ .shell
  else b < 32 ∨ lineMax - 1 ≤ s.lineLen

/-- A command arrives outside an escape sequence, and its payload does nothing. -/
def TelnetItem.quiet (s : TelnetSess) : TelnetItem → Bool
  | .data .. => true
  | .command .. | .option .. => s.escLen = 0
  | .subnegotiation payload => s.escLen = 0 ∧ payload.all (idle s)

/-- Every command is quiet in the session that the data before it leads to. -/
def unobtrusive (env : TelnetEnv) : TelnetState → List TelnetItem → Bool
  | _, [] => true
  | st, item :: items =>
      item.quiet st.sess && unobtrusive env (nvTelnetFeed env st item.typed) items

/--
No command becomes input: between two items the effect is that of the data so far, and
at every byte of a command it is that of the data before the command.
-/
structure NeverInput (env : TelnetEnv) (st : TelnetState) (items : List TelnetItem) : Prop where
  between : ∀ before, before <+: items →
    SameEffect (nvTelnetFeed env st (wire before)) (nvTelnetFeed env st (typedBytes before))
  within : ∀ before item, before ++ [item] <+: items → item.typed = [] →
    ∀ part, part <+: item.wire →
      SameEffect (nvTelnetFeed env st (wire before ++ part)) (nvTelnetFeed env st (typedBytes before))

section Skipping

variable {env : TelnetEnv} {st : TelnetState}

theorem not_taken_of_escape (hescape : st.escape.2 = 0) {c : UInt8} (hc : c ≠ 0x1b) :
    ¬(0 < st.escape.2 ∨ c = 0x1b) := by
  rintro (hpos | h)
  · exact Nat.lt_irrefl 0 (hescape ▸ hpos)
  · exact hc h

theorem feed_command (hescape : st.escape.2 = 0) {cmd : UInt8} (hcmd : takesOption cmd = false)
    (rest : List UInt8) :
    nvTelnetFeed env st (255 :: cmd :: rest) = nvTelnetFeed env (st.log (.byte 255)) rest := by
  rw [feed_iac (not_taken_of_escape hescape (by decide))]
  cases rest with
  | nil => rfl
  | cons b rest => simp [resume, hcmd]

theorem feed_option (hescape : st.escape.2 = 0) {cmd : UInt8} (hcmd : takesOption cmd = true)
    (opt : UInt8) (rest : List UInt8) :
    nvTelnetFeed env st (255 :: cmd :: opt :: rest) =
      nvTelnetFeed env (st.log (.byte 255)) rest := by
  rw [feed_iac (not_taken_of_escape hescape (by decide))]
  simp [resume, hcmd]

/-- The bytes do nothing where they arrive, at none of them and not to what follows. -/
structure Passed (env : TelnetEnv) (st : TelnetState) (bs : List UInt8) : Prop where
  parts : ∀ part, part <+: bs → SameEffect (nvTelnetFeed env st part) st
  rest : ∀ after, SameEffect (nvTelnetFeed env st (bs ++ after)) (nvTelnetFeed env st after)

theorem Passed.append {bs bs' : List UInt8} (h : Passed env st bs) (h' : Passed env st bs') :
    Passed env st (bs ++ bs') where
  parts part hpart := by
    rcases List.prefix_or_prefix_of_prefix hpart (List.prefix_append bs bs') with hle | ⟨more, rfl⟩
    · exact h.parts part hle
    · exact (h.rest more).trans (h'.parts more ((List.prefix_append_right_inj bs).mp hpart))
  rest after := by
    rw [List.append_assoc]
    exact (h.rest _).trans (h'.rest after)

/-- Bytes that leave nothing but a record behind. -/
theorem passed_of_logged {bs : List UInt8} {e : TelnetEvent} (he : e.isOperation = false)
    (hparts : ∀ part, part <+: bs → part ≠ [] → nvTelnetFeed env st part = st.log e)
    (hrest : ∀ after, nvTelnetFeed env st (bs ++ after) = nvTelnetFeed env (st.log e) after) :
    Passed env st bs where
  parts part hpart := by
    by_cases hnil : part = []
    · rw [hnil]
      exact SameEffect.refl st
    · rw [hparts part hpart hnil]
      exact feed_log_sameEffect env st he []
  rest after := by
    rw [hrest]
    exact feed_log_sameEffect env st he after

theorem feed_iac_ends (hescape : st.escape.2 = 0) {part : List UInt8} (hpart : part.length ≤ 1) :
    nvTelnetFeed env st (255 :: part) = st.log (.byte 255) := by
  rw [feed_iac (not_taken_of_escape hescape (by decide))]
  match part, hpart with
  | [], _ | [_], _ => rfl

theorem passed_command (hescape : st.escape.2 = 0) {cmd : UInt8} (hcmd : takesOption cmd = false) :
    Passed env st [255, cmd] := by
  refine passed_of_logged rfl ?_ (feed_command hescape hcmd)
  simp only [List.prefix_cons_iff, List.prefix_nil]
  rintro part (rfl | ⟨part, rfl, rfl | ⟨part, rfl, rfl⟩⟩) hne
  · exact absurd rfl hne
  · exact feed_iac_ends hescape (Nat.zero_le 1)
  · exact feed_iac_ends hescape (Nat.le_refl 1)

theorem passed_option (hescape : st.escape.2 = 0) {cmd : UInt8} (hcmd : takesOption cmd = true)
    (opt : UInt8) : Passed env st [255, cmd, opt] := by
  refine passed_of_logged rfl ?_ (feed_option hescape hcmd opt)
  simp only [List.prefix_cons_iff, List.prefix_nil]
  rintro part (rfl | ⟨part, rfl, rfl | ⟨part, rfl, rfl | ⟨part, rfl, rfl⟩⟩⟩) hne
  · exact absurd rfl hne
  · exact feed_iac_ends hescape (Nat.zero_le 1)
  · exact feed_iac_ends hescape (Nat.le_refl 1)
  · exact feed_option hescape hcmd opt []

theorem input_idle {c : UInt8} (hc : idle st.sess c = true) (hiac : c ≠ 255) :
    nvTelnetInput env st c = st := by
  unfold idle at hc
  rw [if_neg hiac] at hc
  split_ifs at hc with hend hdelete htab
  · have hzero : st.sess.lineLen = 0 := of_decide_eq_true hc
    rcases hdelete with rfl | rfl | rfl <;> simp [nvTelnetInput, hzero]
  · have hlogin : st.sess.state ≠ .shell := of_decide_eq_true hc
    subst htab
    simp [nvTelnetInput, hlogin]
  · obtain ⟨hnewline, hdelete⟩ := not_or.mp hdelete
    unfold nvTelnetInput
    rw [if_neg (not_or.mp hend).1, if_neg hnewline, if_neg hdelete, if_neg htab]
    rcases of_decide_eq_true hc with hlow | hfull
    · rw [if_pos hlow]
    · rw [if_neg (Nat.not_lt.mpr hfull), ite_self]

theorem passed_idle (hescape : st.escape.2 = 0) {b : UInt8} (hb : idle st.sess b = true)
    (hiac : b ≠ 255) : Passed env st [b] := by
  have hesc : b ≠ 0x1b := by
    rintro rfl
    simp [idle] at hb
  have hround : ∀ after, nvTelnetFeed env st (b :: after) =
      nvTelnetFeed env (st.log (.byte b)) after := by
    intro after
    have hinput : nvTelnetInput env (st.log (.byte b)) b = st.log (.byte b) := input_idle hb hiac
    rw [feed_plain (not_taken_of_escape hescape hesc) hiac, hinput]
  refine passed_of_logged rfl ?_ hround
  simp only [List.prefix_cons_iff, List.prefix_nil]
  rintro part (rfl | ⟨part, rfl, rfl⟩) hne
  · exact absurd rfl hne
  · exact hround []

theorem passed_payload (hescape : st.escape.2 = 0) {payload : List UInt8}
    (h : payload.all (idle st.sess) = true) : Passed env st (doubled payload) := by
  induction payload with
  | nil =>
      refine ⟨fun part hpart => ?_, fun after => SameEffect.refl _⟩
      rw [List.prefix_nil.mp hpart]
      exact SameEffect.refl st
  | cons b payload ih =>
      obtain ⟨hb, hpayload⟩ := by simpa using h
      have hrest := ih (by simpa using hpayload)
      rw [doubled]
      split_ifs with hiac
      · exact (passed_command hescape (by decide)).append hrest
      · exact (passed_idle hescape hb hiac).append hrest

theorem passed_of_quiet {item : TelnetItem} (hitem : item.typed = [])
    (h : item.quiet st.sess = true) : Passed env st item.wire := by
  cases item with
  | data b hb => cases hitem
  | command cmd hcmd => exact passed_command (of_decide_eq_true h) hcmd.1
  | option cmd opt hcmd => exact passed_option (of_decide_eq_true h) hcmd opt
  | subnegotiation payload =>
      obtain ⟨hescape, hpayload⟩ := of_decide_eq_true h
      have hsb : Passed env st [255, 250] := passed_command hescape (by decide)
      have hse : Passed env st [255, 240] := passed_command hescape (by decide)
      exact hsb.append ((passed_payload hescape hpayload).append hse)

theorem not_sameEffect_of_operation {st st' : TelnetState} {tr : List TelnetEvent} {e : TelnetEvent}
    (he : e.isOperation = true) (htr : st.trace <+: tr) (h : tr ++ [e] <+: st'.trace) :
    ¬ SameEffect st' st := by
  intro hsame
  obtain ⟨more, rfl⟩ := htr
  obtain ⟨later, hlater⟩ := h
  have hlen := congrArg List.length hsame.operations
  rw [← hlater, List.filter_append, List.filter_append, List.filter_append,
    List.filter_cons_of_pos he, List.length_append, List.length_append, List.length_append,
    List.length_cons] at hlen
  omega

theorem not_sameEffect_processLine (st : TelnetState) (c : UInt8) :
    ¬ SameEffect (nvTelnetProcessLine env (st.log (.byte c))) st := by
  have hstate (h : SameEffect (nvTelnetProcessLine env (st.log (.byte c))) st) :
      (nvTelnetProcessLine env (st.log (.byte c))).sess.state = (st.log (.byte c)).sess.state :=
    congrArg TelnetSess.state h.sess
  cases hlogin : (st.log (.byte c)).sess.state with
  | user =>
      intro h
      have hnext := (nvTelnetProcessLine_user env _ hlogin).1
      rw [hstate h, hlogin] at hnext
      cases hnext
  | pass =>
      intro h
      have hnext := (nvTelnetProcessLine_pass env _ hlogin).1
      rw [hstate h, hlogin] at hnext
      rcases hnext with ⟨hnext, -⟩ | hnext <;> cases hnext
  | shell =>
      have hsubmit : st.trace <+: (st.log (.byte c)).submitTrace :=
        (List.prefix_append _ _).trans (List.prefix_append _ _)
      obtain ⟨more, -, ⟨-, -, htr⟩ | ⟨-, -, later, htr, -⟩⟩ :=
        nvTelnetProcessLine_shell env _ hlogin
      · exact not_sameEffect_of_operation rfl (hsubmit.trans (List.prefix_append _ more))
          ⟨_, htr.symm⟩
      · exact not_sameEffect_of_operation rfl (hsubmit.trans (List.prefix_append _ more))
          ⟨later, htr.symm⟩

theorem TelnetSess.typed_ne_self {s : TelnetSess} (h : s.lineLen < lineMax - 1) (c : UInt8) :
    s.typed c ≠ s := by
  unfold TelnetSess.typed
  rw [if_pos h]
  dsimp only
  split_ifs with hshown
  · intro heq
    have hpos : -1 = s.historyPos := congrArg TelnetSess.historyPos heq
    omega
  · intro heq
    have hlen : s.lineLen + 1 = s.lineLen := congrArg TelnetSess.lineLen heq
    omega

theorem ne_esc_of_sameEffect (hescape : st.escape.2 = 0) {b : UInt8}
    (h : SameEffect (nvTelnetFeed env st [b]) st) : b ≠ 0x1b := by
  rintro rfl
  obtain ⟨st', hst', -, hround⟩ := feed_escape env st 0x1b (Or.inr rfl)
  have hone := escapeAfter_esc st.escape hescape
  rw [hround] at h
  rw [← hst', show st'.escape.2 = st.escape.2 from congrArg TelnetSess.escLen h.sess,
    hescape] at hone
  exact absurd hone (by decide)

/-- A backspace makes the line shorter. -/
theorem not_sameEffect_backspace {b : UInt8} (hback : b = 127 ∨ b = 8)
    (hpos : 0 < st.sess.lineLen) : ¬ SameEffect (nvTelnetInput env (st.log (.byte b)) b) st := by
  intro h
  have hinput : nvTelnetInput env (st.log (.byte b)) b =
      nvTelnetEchoBackspace ((st.log (.byte b)).upd fun s =>
        { s with lineLen := s.lineLen - 1 }) := by
    unfold nvTelnetInput
    rw [if_neg (by rcases hback with rfl | rfl <;> decide),
      if_neg (by rcases hback with rfl | rfl <;> decide), if_pos hback]
    exact if_pos hpos
  have hlen : st.sess.lineLen - 1 = st.sess.lineLen := by
    rw [hinput] at h
    exact congrArg TelnetSess.lineLen ((sess_write _ _).symm.trans h.sess)
  omega

/-- A tab in the shell completes the line. -/
theorem not_sameEffect_tab (hshell : st.sess.state = .shell) :
    ¬ SameEffect (nvTelnetInput env (st.log (.byte 9)) 9) st := by
  have hinput : nvTelnetInput env (st.log (.byte 9)) 9 = nvTelnetTabComplete (st.log (.byte 9)) :=
    if_pos hshell
  have hlogged : ¬ (st.log (.byte 9)).sess.state ≠ .shell := not_not.mpr hshell
  rw [hinput, nvTelnetTabComplete_eq, if_neg hlogged]
  exact not_sameEffect_of_operation rfl
    ((List.prefix_append _ _).trans (completed_edits (st.log (.byte 9))).trace_grows)
    List.prefix_rfl

theorem idle_of_sameEffect (hescape : st.escape.2 = 0) {b : UInt8} (hiac : b ≠ 255)
    (h : SameEffect (nvTelnetFeed env st [b]) st) : idle st.sess b = true := by
  have hesc := ne_esc_of_sameEffect hescape h
  rw [feed_plain (not_taken_of_escape hescape hesc) hiac] at h
  change SameEffect (nvTelnetInput env (st.log (.byte b)) b) st at h
  cases hsub : submits (st.log (.byte b)) b with
  | true =>
      rw [nvTelnetInput_submits _ env hsub] at h
      exact absurd h (not_sameEffect_processLine st b)
  | false =>
      obtain ⟨hreturn, hnewline⟩ := not_or.mp (of_decide_eq_false hsub)
      by_contra hidle
      unfold idle at hidle
      rw [if_neg hiac] at hidle
      split_ifs at hidle with hend hdelete htab
      · exact hend.elim hreturn hesc
      · have hpos : 0 < st.sess.lineLen := Nat.pos_of_ne_zero fun hz => hidle (decide_eq_true hz)
        have hback := hdelete.resolve_left fun hlf => hnewline ⟨hlf, hpos⟩
        exact not_sameEffect_backspace hback hpos h
      · subst htab
        have hshell := not_not.mp fun hne => hidle (decide_eq_true hne)
        exact not_sameEffect_tab hshell h
      · obtain ⟨hlow, hroom⟩ := not_or.mp (mt decide_eq_true hidle)
        have hsess := sess_input_typed (st.log (.byte b)) env hlow
          fun h127 => hdelete (Or.inr (Or.inl h127))
        rw [h.sess] at hsess
        exact TelnetSess.typed_ne_self (Nat.not_le.mp hroom) b hsess.symm

theorem idle_of_parts (hescape : st.escape.2 = 0) {payload : List UInt8}
    (h : ∀ part, part <+: doubled payload → SameEffect (nvTelnetFeed env st part) st) :
    payload.all (idle st.sess) = true := by
  induction payload with
  | nil => rfl
  | cons b payload ih =>
      have hb : idle st.sess b = true := by
        by_cases hiac : b = 255
        · simp [idle, hiac]
        · refine idle_of_sameEffect hescape hiac (h [b] ?_)
          rw [doubled, if_neg hiac]
          simp
      have hone : Passed env st (doubled [b]) := passed_payload hescape (by simpa using hb)
      have hsplit : doubled (b :: payload) = doubled [b] ++ doubled payload := by
        simp only [doubled]
        split_ifs <;> rfl
      rw [List.all_cons, hb, Bool.true_and]
      refine ih fun part hpart => ((hone.rest part).symm.trans (h _ ?_))
      rw [hsplit]
      exact (List.prefix_append_right_inj _).mpr hpart

/-- A command is quiet exactly if it goes unnoticed at each of its bytes. -/
theorem quiet_iff_parts {item : TelnetItem} (hitem : item.typed = []) :
    item.quiet st.sess = true ↔
      ∀ part, part <+: item.wire → SameEffect (nvTelnetFeed env st part) st := by
  refine ⟨fun h => (passed_of_quiet hitem h).parts, fun h => ?_⟩
  -- the IAC is not taken by an escape sequence
  have hescape : [255] <+: item.wire → st.escape.2 = 0 := by
    intro hiac
    by_contra hopen
    have hpos : 0 < st.escape.2 := Nat.pos_of_ne_zero hopen
    obtain ⟨st', hst', -, hround⟩ := feed_escape env st 255 (Or.inl hpos)
    have hsame := h _ hiac
    rw [hround] at hsame
    refine escapeAfter_ne hpos 255 ?_
    rw [← hst']
    exact congrArg TelnetSess.escLen hsame.sess
  cases item with
  | data b hb => cases hitem
  | command cmd hcmd => exact decide_eq_true (hescape (by simp [TelnetItem.wire]))
  | option cmd opt hcmd => exact decide_eq_true (hescape (by simp [TelnetItem.wire]))
  | subnegotiation payload =>
      have hzero := hescape (by simp [TelnetItem.wire])
      have hsb : Passed env st [255, 250] := passed_command hzero (by decide)
      have hparts : ∀ part, part <+: doubled payload →
          SameEffect (nvTelnetFeed env st part) st := by
        intro part hpart
        refine (hsb.rest part).symm.trans (h _ ?_)
        exact (List.prefix_append_right_inj [255, 250]).mpr (hpart.trans (List.prefix_append _ _))
      exact decide_eq_true ⟨hzero, idle_of_parts hzero hparts⟩

/-- One item more, if the rest of the bytes goes on as after its data. -/
theorem neverInput_cons_iff {item : TelnetItem} {items : List TelnetItem}
    (hwire : ∀ after, SameEffect (nvTelnetFeed env st (item.wire ++ after))
      (nvTelnetFeed env (nvTelnetFeed env st item.typed) after))
    (htyped : ∀ after, nvTelnetFeed env st (item.typed ++ after) =
      nvTelnetFeed env (nvTelnetFeed env st item.typed) after) :
    NeverInput env st (item :: items) ↔
      (item.typed = [] → ∀ part, part <+: item.wire → SameEffect (nvTelnetFeed env st part) st) ∧
        NeverInput env (nvTelnetFeed env st item.typed) items := by
  constructor
  · intro h
    refine ⟨fun hitem => h.within [] item (by simp) hitem, ?_, ?_⟩
    · intro before hbefore
      have hwhole := h.between (item :: before) (List.cons_prefix_cons.mpr ⟨rfl, hbefore⟩)
      rw [← htyped (typedBytes before)]
      exact (hwire _).symm.trans hwhole
    · intro before item' hbefore hitem part hpart
      have hwhole := h.within (item :: before) item' (List.cons_prefix_cons.mpr ⟨rfl, hbefore⟩)
        hitem part hpart
      rw [← htyped (typedBytes before)]
      refine (hwire _).symm.trans ?_
      rw [← List.append_assoc]
      exact hwhole
  · rintro ⟨hparts, h⟩
    constructor
    · intro before hbefore
      cases before with
      | nil => exact SameEffect.refl _
      | cons item' before =>
          obtain ⟨rfl, hrest⟩ := List.cons_prefix_cons.mp hbefore
          exact (hwire _).trans ((h.between before hrest).trans (htyped _ ▸ SameEffect.refl _))
    · intro before item' hbefore hitem part hpart
      cases before with
      | nil =>
          obtain ⟨rfl, -⟩ := List.cons_prefix_cons.mp hbefore
          exact hparts hitem part hpart
      | cons first before =>
          obtain ⟨rfl, hrest⟩ := List.cons_prefix_cons.mp hbefore
          have hwhole := h.within before item' hrest hitem part hpart
          rw [← htyped (typedBytes before)] at hwhole
          refine SameEffect.trans ?_ hwhole
          have hfirst := hwire (wire before ++ part)
          rw [← List.append_assoc] at hfirst
          exact hfirst

theorem feed_data (env : TelnetEnv) (st : TelnetState) {b : UInt8} (hb : b ≠ 255)
    (after : List UInt8) :
    nvTelnetFeed env st (b :: after) = nvTelnetFeed env (nvTelnetFeed env st [b]) after := by
  by_cases hesc : 0 < st.escape.2 ∨ b = 0x1b
  · obtain ⟨st', -, -, hround⟩ := feed_escape env st b hesc
    rw [hround, hround]
    rfl
  · rw [feed_plain hesc hb, feed_plain hesc hb]
    rfl

/--
Telnet commands between the data never become input, at no byte of them, exactly if
every command arrives outside an escape sequence and every byte of a payload does
nothing where it arrives.
-/
theorem nvTelnetFeed_never_input_iff
    (env : TelnetEnv)
    (st : TelnetState)
    (items : List TelnetItem) :
    NeverInput env st items ↔ unobtrusive env st items = true := by
  induction items generalizing st with
  | nil =>
      refine iff_of_true ⟨fun before h => ?_, fun before item h => ?_⟩ rfl
      · rw [List.prefix_nil.mp h]
        exact SameEffect.refl _
      · exact absurd (List.prefix_nil.mp h) (by simp)
  | cons item items ih =>
      rw [unobtrusive, Bool.and_eq_true, ← ih]
      by_cases hitem : item.typed = []
      · by_cases hquiet : item.quiet st.sess = true
        · have hpassed : Passed env st item.wire := passed_of_quiet hitem hquiet
          rw [neverInput_cons_iff, hitem]
          · exact and_congr_left fun _ => iff_of_true (fun _ => hpassed.parts) hquiet
          · rw [hitem]
            exact hpassed.rest
          · rw [hitem]
            exact fun after => rfl
        · refine iff_of_false (fun h => hquiet ?_) fun h => hquiet h.1
          exact (quiet_iff_parts hitem).mpr (h.within [] item (by simp) hitem)
      · cases item with
        | data b hb =>
            have hdata := feed_data env st hb
            rw [neverInput_cons_iff (fun after => hdata after ▸ SameEffect.refl _) hdata]
            exact and_congr_left fun _ => iff_of_true (fun h => absurd h hitem) rfl
        | command | option | subnegotiation => exact absurd rfl hitem

/-- `ls` with a terminal type, a NOP, a DO LINEMODE and another terminal type in between. -/
def interleaved : List TelnetItem :=
  [.subnegotiation [24, 8, 10], .command 241 (by decide), .data 108 (by decide),
    .option 253 34 (by decide), .data 115 (by decide), .subnegotiation [24, 1]]

theorem interleaved_never_input :
    SameEffect (nvTelnetFeed plainEnv shellSession (wire interleaved))
      (nvTelnetFeed plainEnv shellSession [108, 115]) :=
  ((nvTelnetFeed_never_input_iff plainEnv shellSession interleaved).mpr
    (by decide +kernel)).between interleaved List.prefix_rfl

/-- The client reports a window of 80 columns and 24 lines. -/
def windowSize : List TelnetItem :=
  [.subnegotiation [31, 0, 80, 0, 24]]

/-- An arrow key with a NOP behind its ESC. -/
def interruptedKey : List TelnetItem :=
  [.data 0x1b (by decide), .command 241 (by decide), .data 0x5b (by decide),
    .data 0x41 (by decide)]

/-- The 80 columns type a `P`; the NOP inside the arrow key is typed, and the key is lost. -/
theorem window_size_typed :
    shellSession.sess.escLen = 0 ∧
      (nvTelnetFeed plainEnv shellSession (wire windowSize)).freed = false ∧
      (nvTelnetFeed plainEnv shellSession (wire windowSize)).sess.line.toList.take 1 = [80] ∧
      (nvTelnetFeed plainEnv shellSession (wire windowSize)).sess.lineLen = 1 ∧
      (nvTelnetFeed plainEnv shellSession (typedBytes windowSize)).sess.lineLen = 0 ∧
      (nvTelnetFeed plainEnv shellSession (wire interruptedKey)).freed = false ∧
      (nvTelnetFeed plainEnv shellSession (wire interruptedKey)).sess.lineLen = 3 ∧
      (nvTelnetFeed plainEnv shellSession (typedBytes interruptedKey)).sess.lineLen = 0 := by
  decide +kernel

end Skipping

end Libnv.Cli
