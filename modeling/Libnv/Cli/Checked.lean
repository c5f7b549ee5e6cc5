import Libnv.Cli.Complete
import Libnv.Cli.History
import Libnv.Lib.BoundedWrite

/-!
# Sessions whose writes are checked

The functions of `nv_core_telnet.c` and `nv_core_cli_tab_complete` once more, with
every write to an array of the session or of the stack made one that fails outside
the array.  The arrays of `nv_core_cli_tab_complete` are not initialised; what they
hold may be different at every call.

Under the bounds that a session keeps, each function has the result of the model
without checks.  A session that was freed is memory of someone else, and from there on
the model without checks takes over.
-/

namespace Libnv.Cli
namespace Checked

open CText

/-- Changes the session. -/
def upd (st : TelnetState) (f : TelnetSess → Option TelnetSess) : Option TelnetState := do
  let sess ← f st.sess
  pure { st with sess := sess }

/-- `sess->line[sess->line_len] = '\0'`. -/
def terminate (s : TelnetSess) : Option TelnetSess := do
  let line ← Bounded.poke s.line s.lineLen 0
  pure { s with line := line }

def nvTelnetRedrawLine (st : TelnetState) : Option TelnetState := do
  let st ← upd st terminate
  pure (nvCoreCliWrite st ((lit "\r\x1b[Knv> ").bytes ++ st.sess.line.text.bytes))

/-- Stores `line` as entry `i`. -/
def putEntry (s : TelnetSess) (i : Nat) (line : CString) : Option TelnetSess := do
  let history ← Bounded.modify s.history i fun row => Bounded.snprintf row lineMax line
  pure { s with history := history, historyPos := -1 }

def nvTelnetHistoryAdd (st : TelnetState) (line : CString) : Option TelnetState :=
  if line = CString.empty ∨ st.sess.state ≠ .shell then pure st
  else if 0 < st.sess.historyCount ∧ st.sess.entry (st.sess.historyCount - 1) = line then pure st
  else if st.sess.historyCount < 32 then
    upd st fun s => putEntry { s with historyCount := s.historyCount + 1 } s.historyCount line
  else
    upd st fun s => do
      let history ← Bounded.memmove s.history 0 1 31
      putEntry { s with history := history } 31 line

def putLine (s : TelnetSess) (line : CString) : Option TelnetSess := do
  let buf ← Bounded.snprintf s.line lineMax line
  pure { s with line := buf, lineLen := buf.text.length }

def nvTelnetHistoryUp (st : TelnetState) : Option TelnetState := do
  let before := st.edited
  let st ←
    (if st.sess.state ≠ .shell ∨ st.sess.historyCount = 0 then pure st
    else if st.sess.historyPos < 0 then do
      let st ← upd st fun s => do
        let draft ← Bounded.snprintf s.historyDraft lineMax s.line.text
        putLine { s with historyDraft := draft, historyPos := s.historyCount - 1 }
          (s.entry (s.historyCount - 1))
      nvTelnetRedrawLine st
    else if 0 < st.sess.historyPos then do
      let st ← upd st fun s =>
        putLine { s with historyPos := s.historyPos - 1 } (s.entry (s.historyPos - 1).toNat)
      nvTelnetRedrawLine st
    else pure st)
  pure (st.log (.edit .up before st.edited))

def nvTelnetHistoryDown (st : TelnetState) : Option TelnetState := do
  let before := st.edited
  let st ←
    (if st.sess.state ≠ .shell ∨ st.sess.historyPos < 0 then pure st
    else if (st.sess.historyCount : Int) - 1 ≤ st.sess.historyPos then do
      let st ← upd st fun s => putLine { s with historyPos := -1 } s.historyDraft.text
      nvTelnetRedrawLine st
    else do
      let st ← upd st fun s =>
        putLine { s with historyPos := s.historyPos + 1 } (s.entry (s.historyPos + 1).toNat)
      nvTelnetRedrawLine st)
  pure (st.log (.edit .down before st.edited))

/-- The arrays of `nv_core_cli_tab_complete` when it is entered. -/
structure TabBuffers where
  /-- `matches`. -/
  found : Vector CString 32
  tail : CBuffer lineMax
  newLine : CBuffer lineMax
  lcpBuf : CBuffer lineMax

/-- The loop that collects names, with the array and the number of names in it. -/
def collect (line : CString) (wordLen : Nat) :
    List CliCmd → Vector CString 32 → Nat → Option (Vector CString 32 × Nat)
  | [], found, nmatch => pure (found, nmatch)
  | cmd :: cmds, found, nmatch =>
      if nmatch < 32 then
        if (wordLen = 0 ∨ equalIgnoreCaseN cmd.name line wordLen) ∧
            ¬ nvCliMatchExists (found.toList.take nmatch) cmd.name then do
          let found ← Bounded.set found nmatch cmd.name
          collect line wordLen cmds found (nmatch + 1)
        else collect line wordLen cmds found nmatch
      else pure (found, nmatch)

/-- A text is printed to `new_line` and copied to the line, with its length. -/
def replaceLine (newLine line : CBuffer lineMax) (text : List UInt8) :
    Option (CBuffer lineMax × Nat) := do
  let newLine ← Bounded.snprintf newLine lineMax (CString.ofBuffer text)
  let line ← Bounded.strncpy line newLine.text (lineMax - 1)
  let line ← Bounded.poke line (lineMax - 1) 0
  pure (line, line.text.length)

/-- `tail` gets what stands behind the first word, if there is more. -/
def copyTail (tail : CBuffer lineMax) (rest : CString) (more : Bool) : Option (CBuffer lineMax) := do
  let tail ← Bounded.poke tail 0 0
  if more then do
    let tail ← Bounded.strncpy tail rest (lineMax - 1)
    Bounded.poke tail (lineMax - 1) 0
  else pure tail

/-- The line with the first `lcpLen` bytes of a name in place of its first word. -/
def lcpLine (junk : TabBuffers) (line tail : CBuffer lineMax) (first : CString) (lcpLen : Nat) :
    Option (CBuffer lineMax × Nat) := do
  let lcpBuf ← Bounded.strncpy junk.lcpBuf first lcpLen
  let lcpBuf ← Bounded.poke lcpBuf lcpLen 0
  replaceLine junk.newLine line
    (if tail.peek 0 = 0 then lcpBuf.text.bytes else lcpBuf.text.bytes ++ tail.text.bytes)

/-- `nv_core_cli_tab_complete`, with the commands `cmds` registered. -/
def nvCoreCliTabComplete (junk : TabBuffers) (cmds : List CliCmd) (fd : Int)
    (line : CBuffer lineMax) (lineLen : Nat) : Option (Completion lineMax) :=
  if lineMax < 2 ∨ fd < 0 then pure ⟨line, lineLen, [], .error⟩
  else do
    let line ← Bounded.poke line lineLen 0
    let wordLen := nvCliFirstWordLen line.toList lineLen
    let (found, nmatch) ← collect line.text wordLen cmds junk.found 0
    let found := found.toList.take nmatch
    if nmatch = 0 then pure ⟨line, lineLen, [(lit "\x07").bytes], .ok⟩
    else do
      let tail ← copyTail junk.tail (CString.ofBuffer (line.toList.drop wordLen)) (lineLen > wordLen)
      let first := found.headD CString.empty
      if nmatch = 1 then do
        let completed := nvCliBuildCompletedLine first.bytes tail.text.bytes
        let (line, lineLen) ← replaceLine junk.newLine line completed
        pure ⟨line, lineLen, [], .ok⟩
      else do
        let lcpLen := nvCliMatchesLcp found
        let (line, lineLen) ←
          (if lcpLen > wordLen then lcpLine junk line tail first lcpLen else pure (line, lineLen))
        let newline := (lit "\r\n").bytes
        pure ⟨line, lineLen, newline :: found.map (fun m => m.bytes ++ [32, 32]) ++ [newline], .ok⟩

def nvTelnetTabComplete (junk : TelnetState → TabBuffers) (st : TelnetState) :
    Option TelnetState := do
  let before := st.edited
  let st ←
    (if st.sess.state ≠ .shell then pure st
    else do
      let st := st.upd fun s =>
        { s with historyPos := if 0 ≤ s.historyPos then -1 else s.historyPos }
      let st ← upd st terminate
      let st := { st with cli := if st.sess.fd < 0 then st.cli else nvCoreCliInit st.cli }
      let done ← nvCoreCliTabComplete (junk st) st.cli.cmds st.sess.fd st.sess.line st.sess.lineLen
      let st := done.out.foldl nvCoreCliWrite st
      nvTelnetRedrawLine (st.upd fun s => { s with line := done.line, lineLen := done.lineLen }))
  pure (st.log (.edit .tab before st.edited))

/-- The byte goes to `esc_buf`, with a NUL behind it. -/
def takeByte (st : TelnetState) (c : UInt8) : Option TelnetState :=
  if st.sess.escLen < 7 then
    upd st fun s => do
      let escBuf ← Bounded.poke s.escBuf s.escLen c
      let escBuf ← Bounded.poke escBuf (s.escLen + 1) 0
      pure { s with escBuf := escBuf, escLen := s.escLen + 1 }
  else pure st

/-- `nv_telnet_escape_feed`, with whether it took the byte. -/
def nvTelnetEscapeFeed (st : TelnetState) (c : UInt8) : Option (TelnetState × Bool) :=
  if st.sess.escLen = 0 ∧ c ≠ 0x1b then pure (st, false)
  else do
    let st ← takeByte st c
    let seq := st.sess.escBuf.text
    if contains seq (lit "[A") ∨ contains seq (lit "OA") then do
      let st ← nvTelnetHistoryUp st
      pure (st.upd fun s => { s with escLen := 0 }, true)
    else if contains seq (lit "[B") ∨ contains seq (lit "OB") then do
      let st ← nvTelnetHistoryDown st
      pure (st.upd fun s => { s with escLen := 0 }, true)
    else if 3 ≤ st.sess.escLen ∨ 2 ≤ st.sess.escLen ∧
        st.sess.escBuf.toList.getD 1 0 ≠ 0x5b ∧ st.sess.escBuf.toList.getD 1 0 ≠ 0x4f then
      pure (st.upd fun s => { s with escLen := 0 }, true)
    else pure (st, true)

def putUser (s : TelnetSess) (line : CString) : Option TelnetSess := do
  let user ← Bounded.snprintf s.user 64 line
  pure { s with user := user, lineLen := 0 }

def nvTelnetProcessLine (env : TelnetEnv) (st : TelnetState) : Option TelnetState := do
  let st ← upd st terminate
  let line := st.sess.line.text
  let st := st.log (.submit st.sess.state line st.cli.credentials)
  match st.sess.state with
  | .user => do
      let st ← upd st (putUser · line)
      pure (nvTelnetSendLoginPass st)
  | .pass =>
      if nvTelnetAuth st.cli st.sess.user.text line then
        pure (nvTelnetSendShell (st.upd fun s => { s with lineLen := 0 }))
      else
        let st := nvCoreCliWrite st (lit "\r\nlogin incorrect\r\n").bytes
        pure (nvTelnetSendLoginUser env (st.upd fun s => { s with lineLen := 0 }))
  | .shell => do
      let st ← nvTelnetHistoryAdd st line
      let st := nvCoreCliWrite st (lit "\r\n").bytes
      let (cli, rc) := nvCoreCliExecuteLine env.cli st.cli st.sess.fd line true
      let st := { st with cli := cli }.log (.execute line rc)
      let st := st.upd fun s => { s with lineLen := 0, historyPos := -1, escLen := 0 }
      if rc = nvCliCloseSession then pure (nvTelnetSessRemove env st)
      else if st.cli.quit then pure st
      else pure (nvCoreCliPrintPrompt st)

/-- `sess->line[sess->line_len++] = (char)c`. -/
def putChar (s : TelnetSess) (c : UInt8) : Option TelnetSess := do
  let line ← Bounded.poke s.line s.lineLen c
  pure { s with line := line, lineLen := s.lineLen + 1 }

/-- A byte that is neither part of an escape sequence nor of a telnet command. -/
def nvTelnetInput (env : TelnetEnv) (junk : TelnetState → TabBuffers) (st : TelnetState)
    (c : UInt8) : Option TelnetState :=
  if c = 13 then nvTelnetProcessLine env st
  else if c = 10 then
    if 0 < st.sess.lineLen then nvTelnetProcessLine env st else pure st
  else if c = 127 ∨ c = 8 then
    if 0 < st.sess.lineLen then
      pure (nvTelnetEchoBackspace (st.upd fun s => { s with lineLen := s.lineLen - 1 }))
    else pure st
  else if c = 9 then
    if st.sess.state = .shell then nvTelnetTabComplete junk st else pure st
  else if c < 32 then pure st
  else if st.sess.lineLen < lineMax - 1 then do
    let st ←
      (if st.sess.state = .shell ∧ 0 ≤ st.sess.historyPos then
        upd (st.upd fun s => { s with historyPos := -1, lineLen := 0 }) terminate
      else pure st)
    let st ← upd st (putChar · c)
    pure (nvTelnetEchoChar st c)
  else pure st

/-- The first test of the loop of `nv_telnet_feed`. -/
def tryEscape (st : TelnetState) (c : UInt8) : Option (TelnetState × Bool) :=
  if 0 < st.sess.escLen ∨ c = 0x1b then nvTelnetEscapeFeed st c else pure (st, false)

def nvTelnetFeed (env : TelnetEnv) (junk : TelnetState → TabBuffers) :
    TelnetState → List UInt8 → Option TelnetState
  | st, [] => pure st
  | st, c :: rest =>
      if st.freed then pure (Cli.nvTelnetFeed env st (c :: rest))
      else do
        let (st, taken) ← tryEscape (st.log (.byte c)) c
        if taken then nvTelnetFeed env junk st rest
        else if c = 255 then
          match rest with
          | [] => pure st
          | [_] => pure st
          | cmd :: option :: rest =>
              if 251 ≤ cmd ∧ cmd ≤ 254 then nvTelnetFeed env junk st rest
              else nvTelnetFeed env junk st (option :: rest)
        else do
          let st ← nvTelnetInput env junk st c
          nvTelnetFeed env junk st rest
termination_by _ bs => bs.length

/-- `input` is what `read` returns, `none` an error. -/
def nvTelnetClientHandler (env : TelnetEnv) (junk : TelnetState → TabBuffers) (st : TelnetState)
    (input : Option (List UInt8)) : Option TelnetState :=
  if st.sess.fd < 0 then pure st
  else
    match input with
    | none | some [] => pure (nvTelnetSessRemove env st)
    | some (c :: rest) => do
        let st ← nvTelnetFeed env junk st (c :: rest)
        let st := st.log .testQuit
        if st.cli.quit then pure (nvTelnetSessRemove env st) else pure st

def telnetStep (env : TelnetEnv) (junk : TelnetState → TabBuffers) (st : TelnetState)
    (a : TelnetAction) : Option TelnetState :=
  match a with
  | .readable input => if st.freed then pure st else nvTelnetClientHandler env junk st input
  | .others cli sessions => pure { st with cli := cli, sessions := sessions }
  | .cleanup => if st.freed then pure st else pure (nvTelnetSessRemove env st)

section Line

variable {s : TelnetSess} {st : TelnetState}

theorem upd_eq {f : TelnetSess → Option TelnetSess} (h : f st.sess = some s) :
    upd st f = some { st with sess := s } := by
  rw [upd, h]
  rfl

theorem terminate_eq (h : s.lineLen ≤ lineMax - 1) : terminate s = some s.terminate := by
  rw [terminate, Bounded.poke_eq (Nat.lt_of_le_of_lt h (by decide))]
  rfl

theorem nvTelnetRedrawLine_eq (h : st.sess.lineLen ≤ lineMax - 1) :
    nvTelnetRedrawLine st = some (Cli.nvTelnetRedrawLine st) := by
  rw [nvTelnetRedrawLine, upd_eq (terminate_eq h)]
  rfl

end Line

section History

variable {st : TelnetState}

theorem putEntry_eq {i : Nat} (hi : i < 32) (s : TelnetSess) (line : CString) :
    putEntry s i line = some (s.putEntry i line) := by
  have hrow : s.history.toList.getD i (CBuffer.zero lineMax) = s.history[i] := by
    rw [List.getD_eq_getElem _ _ (by rwa [Vector.length_toList])]
    rfl
  rw [putEntry, Bounded.modify_eq hi _ (Bounded.snprintf_eq (by decide) _ line), TelnetSess.putEntry,
    hrow]
  rfl

theorem nvTelnetHistoryAdd_eq (st : TelnetState) (line : CString) :
    nvTelnetHistoryAdd st line = some (Cli.nvTelnetHistoryAdd st line) := by
  rw [nvTelnetHistoryAdd, Cli.nvTelnetHistoryAdd]
  split_ifs with _ _ hroom
  · rfl
  · rfl
  · exact upd_eq (putEntry_eq hroom _ line)
  · refine upd_eq ?_
    rw [Bounded.memmove_down (by decide) st.sess.history]
    exact putEntry_eq (by decide) _ line

theorem putLine_eq (s : TelnetSess) (line : CString) : putLine s line = some (s.putLine line) := by
  rw [putLine, Bounded.snprintf_eq (by decide)]
  rfl

theorem lineLen_putLine (s : TelnetSess) (line : CString) :
    (s.putLine line).lineLen ≤ lineMax - 1 := by
  have htext : (s.line.snprintf line).text = line.take (lineMax - 1) :=
    CBuffer.text_snprintf _ _ (by decide)
  show (s.line.snprintf line).text.length ≤ _
  rw [htext]
  exact line.length_take_le _

theorem recall_eq {f : TelnetSess → Option TelnetSess} {s : TelnetSess} {line : CString}
    (h : f st.sess = putLine s line) :
    (do
      let st ← upd st f
      nvTelnetRedrawLine st) =
      some (Cli.nvTelnetRedrawLine { st with sess := s.putLine line }) := by
  rw [upd_eq (h.trans (putLine_eq s line))]
  exact nvTelnetRedrawLine_eq (lineLen_putLine s line)

theorem nvTelnetHistoryUp_eq (st : TelnetState) :
    nvTelnetHistoryUp st = some (Cli.nvTelnetHistoryUp st) := by
  rw [nvTelnetHistoryUp, Cli.nvTelnetHistoryUp]
  split_ifs
  · rfl
  · have hdraft := Bounded.snprintf_eq (by decide) st.sess.historyDraft st.sess.line.text
    rw [recall_eq (by rw [hdraft]; rfl)]
    rfl
  · rw [recall_eq rfl]
    rfl
  · rfl

theorem nvTelnetHistoryDown_eq (st : TelnetState) :
    nvTelnetHistoryDown st = some (Cli.nvTelnetHistoryDown st) := by
  rw [nvTelnetHistoryDown, Cli.nvTelnetHistoryDown]
  split_ifs
  · rfl
  · rw [recall_eq rfl]
    rfl
  · rw [recall_eq rfl]
    rfl

theorem takeByte_eq (st : TelnetState) (c : UInt8) : takeByte st c = some (st.takeByte c) := by
  rw [takeByte, TelnetState.takeByte]
  split_ifs with hroom
  · rw [show escapePut st.escape c = _ from if_pos hroom]
    refine upd_eq ?_
    rw [Bounded.poke_eq (by omega), Option.bind_eq_bind, Option.bind_some,
      Bounded.poke_eq (by omega)]
    rfl
  · rw [show escapePut st.escape c = _ from if_neg hroom]
    rfl

theorem nvTelnetEscapeFeed_eq (st : TelnetState) (c : UInt8) :
    nvTelnetEscapeFeed st c = some (Cli.nvTelnetEscapeFeed st c) := by
  have hbuf : (st.takeByte c).sess.escBuf = (escapePut st.escape c).1 := rfl
  have hlen : (st.takeByte c).sess.escLen = (escapePut st.escape c).2 := rfl
  rw [nvTelnetEscapeFeed, Cli.nvTelnetEscapeFeed_eq, takeByte_eq]
  split
  · rfl
  · rw [Option.bind_eq_bind, Option.bind_some, nvTelnetHistoryUp_eq, nvTelnetHistoryDown_eq, hbuf, hlen]
    dsimp only
    split_ifs <;> rfl

end History

section Complete

variable {line : CString} {wordLen : Nat}

theorem collect_eq
    (cmds : List CliCmd) (found : Vector CString 32) {nmatch : Nat} (h : nmatch ≤ 32) :
    ∃ found' nmatch', collect line wordLen cmds found nmatch = some (found', nmatch') ∧
      nmatch' ≤ 32 ∧
      found'.toList.take nmatch' =
        cmds.foldl (tabStep line wordLen) (found.toList.take nmatch) := by
  induction cmds generalizing found nmatch with
  | nil => exact ⟨found, nmatch, rfl, h, rfl⟩
  | cons cmd cmds ih =>
      have hlen : (found.toList.take nmatch).length = nmatch :=
        List.length_take_of_le (by rwa [Vector.length_toList])
      rw [collect, List.foldl_cons]
      by_cases hroom : nmatch < 32
      · rw [if_pos hroom, tabStep, hlen]
        by_cases hnew : (wordLen = 0 ∨ equalIgnoreCaseN cmd.name line wordLen) ∧
            ¬ nvCliMatchExists (found.toList.take nmatch) cmd.name
        · have hput : (found.setIfInBounds nmatch cmd.name).toList.take (nmatch + 1) =
              found.toList.take nmatch ++ [cmd.name] := by
            rw [Vector.toList_setIfInBounds, List.take_add_one, List.take_set_of_le (Nat.le_refl _),
              List.getElem?_set_self (by rwa [Vector.length_toList])]
            rfl
          rw [if_pos hnew, if_pos ⟨hroom, hnew⟩, Bounded.set_eq hroom, ← hput]
          exact ih _ hroom
        · rw [if_neg hnew, if_neg fun hall => hnew hall.2]
          exact ih found h
      · rw [if_neg hroom, tabStep, hlen, if_neg fun hall => hroom hall.1,
          List.foldl_fixed' fun cmd => if_neg fun hall => hroom (hlen ▸ hall.1)]
        exact ⟨found, nmatch, rfl, h, rfl⟩

/-- `tail[0] = '\0'` makes the string empty. -/
theorem text_poke_zero (buf : CBuffer lineMax) : (buf.poke 0 0).text = CString.empty := by
  obtain ⟨old, after, hbuf⟩ : ∃ old after, buf.toList = old :: after :=
    List.exists_cons_of_length_pos (by rw [Vector.length_toList]; decide)
  rw [CBuffer.text, CBuffer.poke_toList, hbuf]
  rfl

/-- The first byte of an array tells whether the string in it is empty. -/
theorem peek_zero_iff (buf : CBuffer lineMax) : buf.peek 0 = 0 ↔ buf.text.bytes = [] := by
  obtain ⟨first, after, hbuf⟩ : ∃ first after, buf.toList = first :: after :=
    List.exists_cons_of_length_pos (by rw [Vector.length_toList]; decide)
  rw [CBuffer.peek, CBuffer.text, hbuf]
  simp [CString.ofBuffer]

theorem copyTail_eq (junk : CBuffer lineMax) (rest : CString) (more : Bool) :
    ∃ tail, copyTail junk rest more = some tail ∧
      tail.text.bytes = if more then (rest.take (lineMax - 1)).bytes else [] := by
  rw [copyTail, Bounded.poke_eq (by decide), Option.bind_eq_bind, Option.bind_some]
  cases more with
  | true =>
      rw [if_pos rfl, if_pos rfl, Bounded.strncpy_eq (by decide), Option.bind_some,
        Bounded.poke_eq (by decide)]
      exact ⟨_, rfl, congrArg CString.bytes (CBuffer.text_strncpy_poke _ _ (by decide))⟩
  | false => exact ⟨_, rfl, congrArg CString.bytes (text_poke_zero junk)⟩

theorem replaceLine_eq (junk line : CBuffer lineMax) (text : List UInt8) :
    replaceLine junk line text = some (Cli.putLine line text) := by
  rw [replaceLine, Bounded.snprintf_eq (by decide), Option.bind_eq_bind, Option.bind_some,
    CBuffer.text_snprintf _ _ (by decide), ← CString.ofBuffer_take, Bounded.strncpy_eq (by decide),
    Option.bind_some, Bounded.poke_eq (by decide)]
  rfl

theorem lcpLine_eq
    (junk : TabBuffers) (line tail : CBuffer lineMax) (first : CString) {lcpLen : Nat}
    (hlcp : lcpLen < lineMax) :
    lcpLine junk line tail first lcpLen =
      some (Cli.putLine line ((first.take lcpLen).bytes ++ tail.text.bytes)) := by
  rw [lcpLine, Bounded.strncpy_eq (Nat.le_of_lt hlcp), Option.bind_eq_bind, Option.bind_some,
    Bounded.poke_eq hlcp, Option.bind_some, CBuffer.text_strncpy_poke _ _ hlcp, replaceLine_eq]
  split_ifs with hempty
  · rw [(peek_zero_iff tail).mp hempty, List.append_nil]
  · rfl

theorem length_tabMatches
    {cmds : List CliCmd} (hnames : ∀ cmd ∈ cmds, cmd.name.length ≤ 31) (line : CString)
    (wordLen : Nat) : ∀ m ∈ tabMatches cmds line wordLen, m.length ≤ 31 := by
  refine List.foldlRecOn (motive := fun found : List CString => ∀ m ∈ found, m.length ≤ 31) cmds _
    (List.forall_mem_nil _) fun found hfound cmd hcmd => ?_
  unfold tabStep
  split_ifs
  · exact List.forall_mem_append.mpr ⟨hfound, List.forall_mem_singleton.mpr (hnames cmd hcmd)⟩
  · exact hfound

theorem nvCoreCliTabComplete_eq
    (junk : TabBuffers) {cmds : List CliCmd} (hnames : ∀ cmd ∈ cmds, cmd.name.length ≤ 31)
    (fd : Int) (line : CBuffer lineMax) {lineLen : Nat} (hlen : lineLen ≤ lineMax - 1) :
    nvCoreCliTabComplete junk cmds fd line lineLen =
      some (Cli.nvCoreCliTabComplete cmds fd line lineLen) := by
  rw [nvCoreCliTabComplete, Cli.nvCoreCliTabComplete]
  by_cases hfd : lineMax < 2 ∨ fd < 0
  · rw [if_pos hfd, if_pos hfd]
    rfl
  · rw [if_neg hfd, if_neg hfd, Bounded.poke_eq (Nat.lt_of_le_of_lt hlen (by decide)),
      Option.bind_eq_bind, Option.bind_some]
    dsimp only
    generalize line.poke lineLen 0 = line
    generalize nvCliFirstWordLen line.toList lineLen = wordLen
    have hshort := length_tabMatches hnames line.text wordLen
    obtain ⟨array, nmatch, hcollect, hmax, hfound⟩ :=
      @collect_eq line.text wordLen cmds junk.found 0 (Nat.zero_le 32)
    have hfound : array.toList.take nmatch = tabMatches cmds line.text wordLen := hfound
    have hcount : (tabMatches cmds line.text wordLen).length = nmatch := by
      rw [← hfound, List.length_take_of_le (by rwa [Vector.length_toList])]
    obtain ⟨tail, hcopy, htail⟩ :=
      copyTail_eq junk.tail (CString.ofBuffer (line.toList.drop wordLen)) (lineLen > wordLen)
    simp only [decide_eq_true_eq] at htail
    rw [hcollect, Option.bind_eq_bind, Option.bind_some]
    dsimp only
    rw [hfound, ← hcount, ← htail, hcopy]
    generalize tabMatches cmds line.text wordLen = found at hshort ⊢
    rcases found with _ | ⟨first, _ | ⟨second, others⟩⟩
    · rfl
    · rw [if_neg (by simp), Option.bind_some, if_pos List.length_singleton, replaceLine_eq]
      rfl
    · have hfirst := hshort first List.mem_cons_self
      have hlcp := ((le_nvCliMatchesLcp_iff first (second :: others) _).mp (Nat.le_refl _)).1
      rw [if_neg (by simp), Option.bind_some, if_neg (by simp),
        lcpLine_eq junk line tail _ (Nat.lt_of_le_of_lt (hlcp.trans hfirst) (by decide))]
      dsimp only
      split_ifs <;> rfl

theorem completed_eq (junk : TabBuffers) {st : TelnetState} (hline : LineOk st.edited)
    (hnames : ∀ cmd ∈ st.atTab.cli.cmds, cmd.name.length ≤ 31) :
    (do
      let done ← nvCoreCliTabComplete junk st.atTab.cli.cmds st.atTab.sess.fd st.atTab.sess.line
        st.atTab.sess.lineLen
      nvTelnetRedrawLine ((done.out.foldl nvCoreCliWrite st.atTab).upd fun s =>
        { s with line := done.line, lineLen := done.lineLen })) = some st.completed := by
  have hat : LineOk (st.atTab.sess.line, st.atTab.sess.lineLen) := hline.terminate
  rw [nvCoreCliTabComplete_eq junk hnames _ _ hat.fits]
  exact nvTelnetRedrawLine_eq (hat.tabComplete st.atTab.cli.cmds st.atTab.sess.fd).fits

theorem nvTelnetTabComplete_eq
    (junk : TelnetState → TabBuffers) {st : TelnetState} (hline : LineOk st.edited)
    (hnames : ∀ cmd ∈ st.atTab.cli.cmds, cmd.name.length ≤ 31) :
    nvTelnetTabComplete junk st = some (Cli.nvTelnetTabComplete st) := by
  have hcompleted := completed_eq (junk st.atTab) hline hnames
  rw [nvTelnetTabComplete, Cli.nvTelnetTabComplete_eq]
  by_cases hshell : st.sess.state ≠ .shell
  · rw [if_pos hshell, if_pos hshell]
    rfl
  · rw [if_neg hshell, if_neg hshell]
    dsimp only
    rw [upd_eq (terminate_eq (by exact hline.fits))]
    exact congrArg
      (fun done => done.bind fun st' => some (st'.log (.edit .tab st.edited st'.edited))) hcompleted

end Complete

section Input

variable (env : TelnetEnv) {st : TelnetState}

theorem putUser_eq (s : TelnetSess) (line : CString) :
    putUser s line = some { s with user := s.user.snprintf line, lineLen := 0 } := by
  rw [putUser, Bounded.snprintf_eq (by decide)]
  rfl

theorem nvTelnetProcessLine_eq (hfits : st.sess.lineLen ≤ lineMax - 1) :
    nvTelnetProcessLine env st = some (Cli.nvTelnetProcessLine env st) := by
  have hend : (st.upd fun s => { s with line := s.line.poke s.lineLen 0 }) =
      { st with sess := st.sess.terminate } := rfl
  rw [nvTelnetProcessLine, Cli.nvTelnetProcessLine, upd_eq (terminate_eq hfits), hend,
    Option.bind_eq_bind, Option.bind_some]
  generalize { st with sess := st.sess.terminate } = st
  dsimp only
  generalize st.sess.line.text = line
  generalize st.log _ = st
  cases st.sess.state with
  | user =>
      dsimp only
      rw [upd_eq (putUser_eq st.sess line)]
      rfl
  | pass =>
      dsimp only
      split_ifs <;> rfl
  | shell =>
      dsimp only
      rw [nvTelnetHistoryAdd_eq, Option.bind_some]
      split_ifs <;> rfl

theorem putChar_eq {s : TelnetSess} (h : s.lineLen < lineMax) (c : UInt8) :
    putChar s c = some { s with line := s.line.poke s.lineLen c, lineLen := s.lineLen + 1 } := by
  rw [putChar, Bounded.poke_eq h]
  rfl

theorem nvTelnetInput_eq (junk : TelnetState → TabBuffers) (hline : LineOk st.edited)
    (hnames : ∀ cmd ∈ st.atTab.cli.cmds, cmd.name.length ≤ 31) (c : UInt8) :
    nvTelnetInput env junk st c = some (Cli.nvTelnetInput env st c) := by
  rw [nvTelnetInput, Cli.nvTelnetInput, nvTelnetProcessLine_eq env hline.fits,
    nvTelnetTabComplete_eq junk hline hnames]
  split_ifs with _ _ _ _ _ _ _ _ hroom
  · rfl
  · rfl
  · rfl
  · rfl
  · rfl
  · rfl
  · rfl
  · rfl
  · rw [upd_eq (terminate_eq (Nat.zero_le _)), Option.bind_eq_bind, Option.bind_some,
      upd_eq (putChar_eq (show 0 < lineMax by decide) c)]
    rfl
  · rw [Option.pure_def, Option.bind_eq_bind, Option.bind_some,
      upd_eq (putChar_eq (Nat.lt_of_lt_of_le hroom (by decide)) c)]
    rfl
  · rfl

theorem tryEscape_eq (st : TelnetState) (c : UInt8) :
    tryEscape st c = some (Cli.tryEscape st c) := by
  rw [tryEscape, Cli.tryEscape, nvTelnetEscapeFeed_eq]
  split_ifs <;> rfl

end Input

end Checked
end Libnv.Cli
