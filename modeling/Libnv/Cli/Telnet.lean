import Libnv.Base.Secure
import Libnv.Cli.Command

/-!
# Telnet sessions

A session reads bytes from its client, edits a line with them and submits the
line at a carriage return.  The first two lines of a login are the user name and
the password; in the shell every line is a command.  Option negotiation is
skipped, and escape sequences recall lines of the history.

The functions pass the session on together with what it shares with the rest of
the process.  The trace records what they do with the session; every event reads
or writes it.  Memory that has been freed holds what `reuse` gives.
-/

namespace Libnv.Cli

open CText Secure

/-- `nv_telnet_state_t`. -/
inductive TelnetLogin where
  | user
  | pass
  | shell
deriving DecidableEq

/-- `nv_telnet_sess_t`, with its address. -/
structure TelnetSess where
  self : Nat
  active : Bool
  fd : Int
  state : TelnetLogin
  user : CBuffer 64
  line : CBuffer lineMax
  lineLen : Nat
  history : Vector (CBuffer lineMax) 32
  historyCount : Nat
  historyPos : Int
  historyDraft : CBuffer lineMax
  escBuf : CBuffer 8
  escLen : Nat
deriving DecidableEq

/-- The user name and the password that a login is checked against. -/
structure Credentials where
  username : CString
  password : CString
deriving DecidableEq

/-- The keys that replace the line that is being edited. -/
inductive EditKey where
  | up
  | down
  | tab
deriving DecidableEq

inductive TelnetEvent where
  /-- The loop of `nv_telnet_feed` looks at a byte. -/
  | byte (c : UInt8)
  /-- `nv_telnet_process_line` takes a line in the given state. -/
  | submit (state : TelnetLogin) (line : CString) (login : Credentials)
  /-- `nv_core_cli_execute_line` was called and returned. -/
  | execute (line : CString) (rc : Int)
  /-- A history or completion function was called, with the line before and after. -/
  | edit (key : EditKey) (before after : CBuffer lineMax × Nat)
  /-- Text was written to the client. -/
  | out (text : List UInt8)
  /-- `nv_telnet_client_handler` tests `sess->ctx && sess->ctx->quit`. -/
  | testQuit
  /-- `nv_telnet_sess_remove`. -/
  | remove
deriving DecidableEq

/-- A session and what it shares with the rest of the process. -/
structure TelnetState where
  cli : CliState
  /-- `g_telnet_sessions`, by address. -/
  sessions : List Nat
  sess : TelnetSess
  /-- The memory of the session has been freed. -/
  freed : Bool
  trace : List TelnetEvent
deriving DecidableEq

/-- What the sessions depend on. -/
structure TelnetEnv where
  cli : CliEnv
  /-- `nv_version_string()`. -/
  version : CString
  /-- `nv_build_time_string()`. -/
  buildTime : CString
  /-- What the memory of a session holds once it has been freed. -/
  reuse : TelnetSess → TelnetSess

namespace TelnetState

/-- Records an event. -/
def log (st : TelnetState) (e : TelnetEvent) : TelnetState :=
  { st with trace := st.trace ++ [e] }

/-- Changes fields of the session. -/
def upd (st : TelnetState) (f : TelnetSess → TelnetSess) : TelnetState :=
  { st with sess := f st.sess }

def edited (st : TelnetState) : CBuffer lineMax × Nat :=
  (st.sess.line, st.sess.lineLen)

end TelnetState

/-- `nv_core_cli_write`, whose buffer has `NV_CORE_CLI_OUT_MAX` bytes. -/
def nvCoreCliWrite (st : TelnetState) (text : List UInt8) : TelnetState :=
  if st.sess.fd < 0 then st else st.log (.out (text.take 4095))

def nvTelnetWriteRaw (st : TelnetState) (text : List UInt8) : TelnetState :=
  if st.sess.fd < 0 then st else st.log (.out text)

def nvCoreCliPrintBanner (env : TelnetEnv) (st : TelnetState) : TelnetState :=
  nvCoreCliWrite st
    ((lit "\r\n  libnv management console\r\n  libnv ").bytes ++ env.version.bytes ++
      (lit "  build ").bytes ++ env.buildTime.bytes ++ (lit "\r\n\r\n").bytes)

def nvCoreCliPrintPrompt (st : TelnetState) : TelnetState :=
  nvCoreCliWrite st (lit "nv> ").bytes

def nvTelnetEchoChar (st : TelnetState) (c : UInt8) : TelnetState :=
  nvTelnetWriteRaw st (if st.sess.state = .pass then (lit "*").bytes else [c])

def nvTelnetEchoBackspace (st : TelnetState) : TelnetState :=
  nvCoreCliWrite st (lit "\x08 \x08").bytes

def nvTelnetRedrawLine (st : TelnetState) : TelnetState :=
  let st := st.upd fun s => { s with line := s.line.poke s.lineLen 0 }
  nvCoreCliWrite st ((lit "\r\x1b[Knv> ").bytes ++ st.sess.line.text.bytes)

/-- `nv_telnet_sess_remove` and `nv_telnet_sess_free`. -/
def nvTelnetSessRemove (env : TelnetEnv) (st : TelnetState) : TelnetState :=
  let st := st.log .remove
  { st with
    sessions := st.sessions.erase st.sess.self
    sess := env.reuse { st.sess with fd := -1, active := false }
    freed := true }

/-- The credentials in force: `ctx->opts`, or the defaults where it holds `NULL`. -/
def CliState.credentials (s : CliState) : Credentials where
  username := s.ctx.opts.cliUsername.getD (lit "admin")
  password := s.ctx.opts.cliPassword.getD (lit "nvadmin")

def nvTelnetAuth (s : CliState) (user pass : CString) : Bool :=
  nvSecureStrEqual (some user) (some s.credentials.username) &&
    nvSecureStrEqual (some pass) (some s.credentials.password)

def nvTelnetSendLoginUser (env : TelnetEnv) (st : TelnetState) : TelnetState :=
  let st := nvCoreCliPrintBanner env st
  let st := nvCoreCliWrite st (lit "login: ").bytes
  st.upd fun s => { s with state := .user }

def nvTelnetSendLoginPass (st : TelnetState) : TelnetState :=
  let st := nvCoreCliWrite st (lit "\r\npassword: ").bytes
  st.upd fun s => { s with state := .pass }

def nvTelnetSendShell (st : TelnetState) : TelnetState :=
  let st := nvCoreCliWrite st (lit "\r\nOK login successful\r\n").bytes
  let st := nvCoreCliPrintPrompt st
  st.upd fun s =>
    { s with
      state := .shell
      historyPos := -1
      historyCount := 0
      escLen := 0 }

/-- The entry `i` of the history. -/
def TelnetSess.entry (s : TelnetSess) (i : Nat) : CString :=
  (s.history.toList.getD i (CBuffer.zero lineMax)).text

/-- Stores `line` as entry `i`. -/
def TelnetSess.putEntry (s : TelnetSess) (i : Nat) (line : CString) : TelnetSess :=
  let row : CBuffer lineMax := s.history.toList.getD i (CBuffer.zero lineMax)
  { s with
    history := s.history.setIfInBounds i (row.snprintf line)
    historyPos := -1 }

def nvTelnetHistoryAdd (st : TelnetState) (line : CString) : TelnetState :=
  if line = CString.empty ∨ st.sess.state ≠ .shell then st
  else if 0 < st.sess.historyCount ∧ st.sess.entry (st.sess.historyCount - 1) = line then st
  else if st.sess.historyCount < 32 then
    st.upd fun s =>
      { s with historyCount := s.historyCount + 1 }.putEntry s.historyCount line
  else
    st.upd fun s => { s with history := shiftDown s.history }.putEntry 31 line

def TelnetSess.putLine (s : TelnetSess) (line : CString) : TelnetSess :=
  let buf := s.line.snprintf line
  { s with line := buf, lineLen := buf.text.length }

def nvTelnetHistoryUp (st : TelnetState) : TelnetState :=
  let before := st.edited
  let st :=
    if st.sess.state ≠ .shell ∨ st.sess.historyCount = 0 then st
    else if st.sess.historyPos < 0 then
      nvTelnetRedrawLine <| st.upd fun s =>
        { s with
          historyDraft := s.historyDraft.snprintf s.line.text
          historyPos := s.historyCount - 1 }.putLine (s.entry (s.historyCount - 1))
    else if 0 < st.sess.historyPos then
      nvTelnetRedrawLine <| st.upd fun s =>
        { s with historyPos := s.historyPos - 1 }.putLine (s.entry (s.historyPos - 1).toNat)
    else st
  st.log (.edit .up before st.edited)

def nvTelnetHistoryDown (st : TelnetState) : TelnetState :=
  let before := st.edited
  let st :=
    if st.sess.state ≠ .shell ∨ st.sess.historyPos < 0 then st
    else if (st.sess.historyCount : Int) - 1 ≤ st.sess.historyPos then
      nvTelnetRedrawLine <| st.upd fun s =>
        { s with historyPos := -1 }.putLine s.historyDraft.text
    else
      nvTelnetRedrawLine <| st.upd fun s =>
        { s with historyPos := s.historyPos + 1 }.putLine (s.entry (s.historyPos + 1).toNat)
  st.log (.edit .down before st.edited)

def nvTelnetTabComplete (st : TelnetState) : TelnetState :=
  let before := st.edited
  let st :=
    if st.sess.state ≠ .shell then st
    else
      let st := st.upd fun s =>
        { s with
          historyPos := if 0 ≤ s.historyPos then -1 else s.historyPos
          line := s.line.poke s.lineLen 0 }
      let st := { st with cli := if st.sess.fd < 0 then st.cli else nvCoreCliInit st.cli }
      let done := nvCoreCliTabComplete st.cli.cmds st.sess.fd st.sess.line st.sess.lineLen
      let st := done.out.foldl nvCoreCliWrite st
      nvTelnetRedrawLine <| st.upd fun s =>
        { s with line := done.line, lineLen := done.lineLen }
  st.log (.edit .tab before st.edited)

/-- `nv_telnet_escape_feed`, with whether it took the byte. -/
def nvTelnetEscapeFeed (st : TelnetState) (c : UInt8) : TelnetState × Bool :=
  if st.sess.escLen = 0 ∧ c ≠ 0x1b then (st, false)
  else
    let st :=
      if st.sess.escLen < 7 then
        st.upd fun s =>
          { s with
            escBuf := (s.escBuf.poke s.escLen c).poke (s.escLen + 1) 0
            escLen := s.escLen + 1 }
      else st
    let seq := st.sess.escBuf.text
    if contains seq (lit "[A") ∨ contains seq (lit "OA") then
      ((nvTelnetHistoryUp st).upd fun s => { s with escLen := 0 }, true)
    else if contains seq (lit "[B") ∨ contains seq (lit "OB") then
      ((nvTelnetHistoryDown st).upd fun s => { s with escLen := 0 }, true)
    else if 3 ≤ st.sess.escLen ∨ 2 ≤ st.sess.escLen ∧
        st.sess.escBuf.toList.getD 1 0 ≠ 0x5b ∧ st.sess.escBuf.toList.getD 1 0 ≠ 0x4f then
      (st.upd fun s => { s with escLen := 0 }, true)
    else (st, true)

def nvTelnetProcessLine (env : TelnetEnv) (st : TelnetState) : TelnetState :=
  let st := st.upd fun s => { s with line := s.line.poke s.lineLen 0 }
  let line := st.sess.line.text
  let st := st.log (.submit st.sess.state line st.cli.credentials)
  match st.sess.state with
  | .user =>
      nvTelnetSendLoginPass <| st.upd fun s =>
        { s with user := s.user.snprintf line, lineLen := 0 }
  | .pass =>
      if nvTelnetAuth st.cli st.sess.user.text line then
        nvTelnetSendShell <| st.upd fun s => { s with lineLen := 0 }
      else
        let st := nvCoreCliWrite st (lit "\r\nlogin incorrect\r\n").bytes
        nvTelnetSendLoginUser env <| st.upd fun s => { s with lineLen := 0 }
  | .shell =>
      let st := nvTelnetHistoryAdd st line
      let st := nvCoreCliWrite st (lit "\r\n").bytes
      let (cli, rc) := nvCoreCliExecuteLine env.cli st.cli st.sess.fd line true
      let st := { st with cli := cli }.log (.execute line rc)
      let st := st.upd fun s => { s with lineLen := 0, historyPos := -1, escLen := 0 }
      if rc = nvCliCloseSession then nvTelnetSessRemove env st
      else if st.cli.quit then st
      else nvCoreCliPrintPrompt st

/-- A byte that is neither part of an escape sequence nor of a telnet command. -/
def nvTelnetInput (env : TelnetEnv) (st : TelnetState) (c : UInt8) : TelnetState :=
  if c = 13 then nvTelnetProcessLine env st
  else if c = 10 then
    if 0 < st.sess.lineLen then nvTelnetProcessLine env st else st
  else if c = 127 ∨ c = 8 then
    if 0 < st.sess.lineLen then
      nvTelnetEchoBackspace <| st.upd fun s => { s with lineLen := s.lineLen - 1 }
    else st
  else if c = 9 then
    if st.sess.state = .shell then nvTelnetTabComplete st else st
  else if c < 32 then st
  else if st.sess.lineLen < lineMax - 1 then
    -- a character typed while the history is shown starts a new line
    let st :=
      if st.sess.state = .shell ∧ 0 ≤ st.sess.historyPos then
        st.upd fun s => { s with historyPos := -1, lineLen := 0, line := s.line.poke 0 0 }
      else st
    let st := st.upd fun s =>
      { s with line := s.line.poke s.lineLen c, lineLen := s.lineLen + 1 }
    nvTelnetEchoChar st c
  else st

/-- The first test of the loop of `nv_telnet_feed`. -/
def tryEscape (st : TelnetState) (c : UInt8) : TelnetState × Bool :=
  if 0 < st.sess.escLen ∨ c = 0x1b then nvTelnetEscapeFeed st c else (st, false)

def nvTelnetFeed (env : TelnetEnv) : TelnetState → List UInt8 → TelnetState
  | st, [] => st
  | st, c :: rest =>
      let (st, taken) := tryEscape (st.log (.byte c)) c
      if taken then nvTelnetFeed env st rest
      else if c = 255 then
        match rest with
        | [] => st
        | [_] => st
        | cmd :: option :: rest =>
            if 251 ≤ cmd ∧ cmd ≤ 254 then nvTelnetFeed env st rest
            else nvTelnetFeed env st (option :: rest)
      else nvTelnetFeed env (nvTelnetInput env st c) rest

/-- `input` is what `read` returns, `none` an error. -/
def nvTelnetClientHandler (env : TelnetEnv) (st : TelnetState) (input : Option (List UInt8)) :
    TelnetState :=
  if st.sess.fd < 0 then st
  else
    match input with
    | none | some [] => nvTelnetSessRemove env st
    | some (c :: rest) =>
        let st := nvTelnetFeed env st (c :: rest)
        let st := st.log .testQuit
        if st.cli.quit then nvTelnetSessRemove env st else st

def gTelnetInit : List UInt8 :=
  [255, 251, 3, 255, 251, 1, 255, 253, 1, 255, 254, 34]

/-- The session that `nv_telnet_sess_start` allocates at `self` for the connection `cfd`. -/
def newSess (self : Nat) (cfd : Int) : TelnetSess where
  self := self
  active := true
  fd := cfd
  state := .user
  user := CBuffer.zero 64
  line := CBuffer.zero lineMax
  lineLen := 0
  history := Vector.replicate 32 (CBuffer.zero lineMax)
  historyCount := 0
  historyPos := -1
  historyDraft := CBuffer.zero lineMax
  escBuf := CBuffer.zero 8
  escLen := 0

/-- `nv_telnet_sess_start`, when the allocation and the registration succeed. -/
def nvTelnetSessStart (env : TelnetEnv) (cli : CliState) (sessions : List Nat) (self : Nat)
    (cfd : Int) : TelnetState :=
  let st : TelnetState :=
    { cli := cli
      sessions := sessions
      sess := newSess self cfd
      freed := false
      trace := [] }
  let st := nvTelnetWriteRaw st gTelnetInit
  nvTelnetSendLoginUser env { st with sessions := self :: st.sessions }

/-- What happens to a session from outside. -/
inductive TelnetAction where
  /-- The client's socket is readable. -/
  | readable (input : Option (List UInt8))
  /-- Other code of the process runs, other sessions included. -/
  | others (cli : CliState) (sessions : List Nat)
  /-- `nv_core_telnet_cleanup`. -/
  | cleanup

/-- A removed session is no longer registered with the loop, nor in the list. -/
def telnetStep (env : TelnetEnv) (st : TelnetState) (a : TelnetAction) : TelnetState :=
  match a with
  | .readable input => if st.freed then st else nvTelnetClientHandler env st input
  | .others cli sessions => { st with cli := cli, sessions := sessions }
  | .cleanup => if st.freed then st else nvTelnetSessRemove env st

section FeedRule

/--
Every byte that reaches `nvTelnetInput` in `nv_telnet_feed` meets `good`, the
session being what the bytes before it have made of it.
-/
def FeedAlong (env : TelnetEnv) (good : TelnetState → UInt8 → Prop) :
    TelnetState → List UInt8 → Prop
  | _, [] => True
  | st, c :: rest =>
      let (st, taken) := tryEscape (st.log (.byte c)) c
      if taken then FeedAlong env good st rest
      else if c = 255 then
        match rest with
        | [] => True
        | [_] => True
        | cmd :: option :: rest =>
            if 251 ≤ cmd ∧ cmd ≤ 254 then FeedAlong env good st rest
            else FeedAlong env good st (option :: rest)
      else good st c ∧ FeedAlong env good (nvTelnetInput env st c) rest

variable {env : TelnetEnv} {P : TelnetState → Prop}

theorem tryEscape_invariant (hescape : ∀ st c, P st → P (nvTelnetEscapeFeed st c).1)
    {st : TelnetState} (hst : P st) (c : UInt8) : P (tryEscape st c).1 := by
  unfold tryEscape
  split
  · exact hescape st c hst
  · exact hst

theorem nvTelnetFeed_invariant (hbyte : ∀ st c, P st → P (st.log (.byte c)))
    (hescape : ∀ st c, P st → P (nvTelnetEscapeFeed st c).1)
    (hinput : ∀ st c, P st → P (nvTelnetInput env st c))
    {st : TelnetState} (hst : P st) (bs : List UInt8) : P (nvTelnetFeed env st bs) := by
  have hfirst : ∀ {st st' : TelnetState} {c : UInt8} {taken : Bool},
      P st → tryEscape (st.log (.byte c)) c = (st', taken) → P st' := by
    intro st st' c taken hst hesc
    have := tryEscape_invariant hescape (hbyte st c hst) c
    rwa [hesc] at this
  fun_induction nvTelnetFeed env st bs with
  | case1 => exact hst
  | case2 st c rest st' hesc ih => exact ih (hfirst hst hesc)
  | case3 st st' taken _ hesc => exact hfirst hst hesc
  | case4 st st' taken _ option hesc => exact hfirst hst hesc
  | case5 st st' taken _ cmd option rest _ hesc ih => exact ih (hfirst hst hesc)
  | case6 st st' taken _ cmd option rest _ hesc ih => exact ih (hfirst hst hesc)
  | case7 st c rest st' taken hesc _ _ ih => exact ih (hinput st' c (hfirst hst hesc))

end FeedRule

end Libnv.Cli
