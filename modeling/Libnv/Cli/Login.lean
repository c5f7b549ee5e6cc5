import Libnv.Cli.Editing
import Libnv.Lib.Trace

/-!
# No command before login

A trace is logged in when two successive lines were submitted as user name and
password and matched the credentials in force when the password was checked.
Before that a session is in one of the two login states, and in the second its
stored user name is the line submitted last (`BeforeLogin`).
-/

namespace Libnv.Cli

open Trace Transition

/-- A submitted line, with the state it was submitted in and the credentials in force. -/
def TelnetEvent.submission? : TelnetEvent → Option (TelnetLogin × CString × Credentials)
  | .submit state line login => some (state, line, login)
  | _ => none

/-- The lines of a trace, in order. -/
def submissions (tr : List TelnetEvent) : List (TelnetLogin × CString × Credentials) :=
  tr.filterMap TelnetEvent.submission?

/--
Two successive lines were submitted as user name and as password, and the first
63 bytes of the one and the whole of the other are the configured ones.
-/
def LoggedIn (tr : List TelnetEvent) : Prop :=
  ∃ name login pass login',
    [(.user, name, login), (.pass, pass, login')] <:+: submissions tr ∧
      name.take 63 = login'.username ∧ pass = login'.password

/-- The events that only a session that is logged in may cause. -/
def TelnetEvent.NeedsLogin : TelnetEvent → Prop
  | .execute .. => True
  | .edit _ before after => before ≠ after
  | _ => False

section Invariant

variable {st st' : TelnetState} {state : TelnetLogin}

/-- A session whose client has not logged in. -/
def BeforeLogin (st : TelnetState) : Prop :=
  match st.sess.state with
  | .user => True
  | .pass => ∃ name login,
      [(.user, name, login)] <:+ submissions st.trace ∧ st.sess.user.text = name.take 63
  | .shell => False

/-- Nothing happened that needs a login, or there was one. -/
structure LoginInv (st : TelnetState) : Prop where
  guarded : Guarded TelnetEvent.NeedsLogin LoggedIn st.trace
  phase : LoggedIn st.trace ∨ BeforeLogin st

theorem loggedIn_mono {tr tr' : List TelnetEvent} (hpre : tr <+: tr') (h : LoggedIn tr) :
    LoggedIn tr' := by
  obtain ⟨name, login, pass, login', hsub, hname, hpass⟩ := h
  have hsub' : submissions tr <+: submissions tr' := hpre.filterMap _
  exact ⟨name, login, pass, login', hsub.trans hsub'.isInfix, hname, hpass⟩

theorem editing_harmless {e : TelnetEvent} (hstate : state ≠ .shell) (he : e.Editing state) :
    e.submission? = none ∧ ¬ e.NeedsLogin := by
  cases e with
  | edit key before after => exact ⟨rfl, fun hne => hne (he.resolve_left hstate)⟩
  | submit | execute | remove => exact he.elim
  | byte | out | testQuit => exact ⟨rfl, id⟩

theorem submissions_append_editing {more : List TelnetEvent} (hstate : state ≠ .shell)
    (hmore : ∀ e ∈ more, e.Editing state) (tr : List TelnetEvent) :
    submissions (tr ++ more) = submissions tr := by
  have hnone : more.filterMap TelnetEvent.submission? = [] :=
    List.filterMap_eq_nil_iff.mpr fun e he => (editing_harmless hstate (hmore e he)).1
  rw [submissions, List.filterMap_append, hnone, List.append_nil, ← submissions]

theorem submissions_submitTrace (st : TelnetState) :
    submissions st.submitTrace =
      submissions st.trace ++ [(st.sess.state, st.submitted, st.cli.credentials)] := by
  simp [submissions, TelnetState.submitTrace, TelnetEvent.submission?]

theorem LoginInv.of_loggedIn (hguarded : Guarded TelnetEvent.NeedsLogin LoggedIn st.trace)
    (hlogin : LoggedIn st.trace) (hpre : st.trace <+: st'.trace) : LoginInv st' := by
  obtain ⟨more, htr⟩ := hpre
  constructor
  · rw [← htr]
    exact hguarded.append_of_ok loggedIn_mono hlogin
  · exact Or.inl (loggedIn_mono ⟨more, htr⟩ hlogin)

theorem BeforeLogin.state_ne_shell (h : BeforeLogin st) : st.sess.state ≠ .shell := by
  intro hstate
  simp [BeforeLogin, hstate] at h

theorem LoginInv.edits (h : LoginInv st) (hedits : Edits st st') : LoginInv st' := by
  rcases h.phase with hlogin | hbefore
  · exact LoginInv.of_loggedIn h.guarded hlogin hedits.trace_grows
  · have hstate := hbefore.state_ne_shell
    obtain ⟨more, htr, hmore⟩ := hedits.trace
    constructor
    · rw [htr]
      exact h.guarded.append_of_not_needs fun e he => (editing_harmless hstate (hmore e he)).2
    · right
      simpa only [BeforeLogin, hedits.state, hedits.user, htr,
        submissions_append_editing hstate hmore] using hbefore

theorem guarded_submit
    (h : Guarded TelnetEvent.NeedsLogin LoggedIn st.trace) (hstate : state ≠ .shell)
    (hfollow : Follows state st.submitTrace st') :
    Guarded TelnetEvent.NeedsLogin LoggedIn st'.trace ∧
      submissions st'.trace = submissions st.submitTrace := by
  obtain ⟨more, htr, hmore⟩ := hfollow
  have hsubmit : Guarded TelnetEvent.NeedsLogin LoggedIn st.submitTrace :=
    (guarded_snoc _ _).mpr ⟨h, False.elim⟩
  rw [htr, submissions_append_editing hstate hmore]
  exact ⟨hsubmit.append_of_not_needs fun e he => (editing_harmless hstate (hmore e he)).2, rfl⟩

theorem LoginInv.processLine (h : LoginInv st) (env : TelnetEnv) :
    LoginInv (nvTelnetProcessLine env st) := by
  rcases h.phase with hlogin | hbefore
  · exact LoginInv.of_loggedIn h.guarded hlogin (nvTelnetProcessLine_trace_grows env st)
  · cases hstate : st.sess.state with
    | user =>
        obtain ⟨hpass, huser, -, hfollow⟩ := nvTelnetProcessLine_user env st hstate
        obtain ⟨hguarded, hsub⟩ := guarded_submit h.guarded (by decide) hfollow
        refine ⟨hguarded, Or.inr ?_⟩
        simp only [BeforeLogin, hpass]
        refine ⟨st.submitted, st.cli.credentials, ?_, huser⟩
        rw [hsub, submissions_submitTrace, hstate]
        exact List.suffix_append _ _
    | pass =>
        obtain ⟨hnext, -, hfollow⟩ := nvTelnetProcessLine_pass env st hstate
        obtain ⟨hguarded, hsub⟩ := guarded_submit h.guarded (by decide) hfollow
        refine ⟨hguarded, ?_⟩
        rcases hnext with ⟨-, huser, hpass⟩ | hnext
        · -- the line before was the user name, and it is still the one stored
          left
          simp only [BeforeLogin, hstate] at hbefore
          obtain ⟨name, login, ⟨before, hname⟩, hstored⟩ := hbefore
          refine ⟨name, login, st.submitted, st.cli.credentials, ?_,
            hstored.symm.trans huser, hpass⟩
          rw [hsub, submissions_submitTrace, hstate, ← hname]
          exact ⟨before, [], by simp⟩
        · right
          simp only [BeforeLogin, hnext]
    | shell => exact absurd hstate hbefore.state_ne_shell

theorem LoginInv.input (h : LoginInv st) (env : TelnetEnv) (c : UInt8) :
    LoginInv (nvTelnetInput env st c) := by
  cases hsubmits : submits st c with
  | true =>
      rw [nvTelnetInput_submits st env hsubmits]
      exact h.processLine env
  | false => exact h.edits (nvTelnetInput_edits st env hsubmits)

theorem LoginInv.feed (h : LoginInv st) (env : TelnetEnv) (bs : List UInt8) :
    LoginInv (nvTelnetFeed env st bs) :=
  nvTelnetFeed_invariant
    (fun _ _ h => h.edits (Edits.log trivial))
    (fun st c h => h.edits (nvTelnetEscapeFeed_edits st c))
    (fun _ c h => h.input env c) h bs

end Invariant

/-- The invariant of a session between two calls; a removed session gets no more. -/
structure SessionInv (st : TelnetState) : Prop where
  guarded : Guarded TelnetEvent.NeedsLogin LoggedIn st.trace
  phase : st.freed = true ∨ LoggedIn st.trace ∨ BeforeLogin st

theorem LoginInv.session {st : TelnetState} (h : LoginInv st) : SessionInv st :=
  ⟨h.guarded, Or.inr h.phase⟩

theorem SessionInv.remove {st : TelnetState} (h : Guarded TelnetEvent.NeedsLogin LoggedIn st.trace)
    (env : TelnetEnv) : SessionInv (nvTelnetSessRemove env st) :=
  ⟨(guarded_snoc _ _).mpr ⟨h, False.elim⟩, Or.inl rfl⟩

theorem SessionInv.clientHandler
    {st : TelnetState} (h : LoginInv st) (env : TelnetEnv) (input : Option (List UInt8)) :
    SessionInv (nvTelnetClientHandler env st input) := by
  unfold nvTelnetClientHandler
  split_ifs
  · exact h.session
  · rcases input with _ | _ | ⟨c, rest⟩
    · exact SessionInv.remove h.guarded env
    · exact SessionInv.remove h.guarded env
    · have hfed : LoginInv ((nvTelnetFeed env st (c :: rest)).log .testQuit) :=
        (h.feed env (c :: rest)).edits (Edits.log trivial)
      dsimp only
      split_ifs
      · exact SessionInv.remove hfed.guarded env
      · exact hfed.session

theorem SessionInv.step
    (env : TelnetEnv) (st : TelnetState) (a : TelnetAction) (h : SessionInv st) :
    SessionInv (telnetStep env st a) := by
  cases a with
  | readable input =>
      simp only [telnetStep]
      split_ifs with hfreed
      · exact h
      · exact SessionInv.clientHandler ⟨h.guarded, h.phase.resolve_left hfreed⟩ env input
  | others cli sessions => exact ⟨h.guarded, h.phase⟩
  | cleanup =>
      simp only [telnetStep]
      split_ifs
      · exact h
      · exact SessionInv.remove h.guarded env

theorem loginInv_start
    (env : TelnetEnv) (cli : CliState) (sessions : List Nat) (self : Nat) (cfd : Int) :
    LoginInv (nvTelnetSessStart env cli sessions self cfd) := by
  let st : TelnetState := ⟨cli, sessions, newSess self cfd, false, []⟩
  have hinit : LoginInv st := ⟨guarded_nil, Or.inr trivial⟩
  let raw := nvTelnetWriteRaw st gTelnetInit
  have hlinked : Edits st { raw with sessions := self :: raw.sessions } :=
    (nvTelnetWriteRaw_edits st gTelnetInit).trans (Edits.shared raw raw.cli (self :: raw.sessions))
  exact hinit.edits (hlinked.trans (nvTelnetSendLoginUser_edits _ env hlinked.state))

/--
In every run of a session, with its input cut into reads in any way and the
configuration changing between and within them, a command is executed, and a
line is changed by the history or by completion, only after a login.
-/
theorem nvTelnet_command_after_login
    (env : TelnetEnv)
    (cli : CliState)
    (sessions : List Nat)
    (self : Nat)
    (cfd : Int)
    (as : List TelnetAction) :
    Guarded TelnetEvent.NeedsLogin LoggedIn
      (run (telnetStep env) (nvTelnetSessStart env cli sessions self cfd) as).trace :=
  (run_invariant (SessionInv.step env) (loginInv_start env cli sessions self cfd).session
    as).guarded

end Libnv.Cli
