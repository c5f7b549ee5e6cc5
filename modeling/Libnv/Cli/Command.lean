import Libnv.Core.Config
import Libnv.Lib.CBuffer

/-!
# Commands of the management console

`nv_core_cli_execute_line` cuts a line into words and runs the registered
command that the first word names; `nv_core_cli_tab_complete` replaces the first
word of a line that is being edited.

Every command gets the context and may change it.  The handlers of the built-in
commands are modelled without the text they print; those that other code
registers are a parameter.  Allocation is taken to succeed.
-/

namespace Libnv.Cli

open CText Libnv.Core

/-- `NV_CORE_CLI_LINE_MAX`. -/
abbrev lineMax : Nat := 512

def nvCliCloseSession : Int := 2

/-- The handlers of the built-in commands, and those that other code registers. -/
inductive CliHandler where
  | help
  | status
  | uptime
  | version
  | workers
  | config
  | reload
  | exit
  | ping
  | plugin (n : Nat)
deriving DecidableEq

/-- `nv_cli_cmd_node_t`, without `userdata`, which nothing reads. -/
structure CliCmd where
  name : CString
  help : CString
  handler : CliHandler
deriving DecidableEq

/-- The context and the globals of `nv_core_cli.c`. -/
structure CliState where
  ctx : CoreCtx
  /-- `ctx->quit`. -/
  quit : Bool
  /-- `g_cli_cmds`. -/
  cmds : List CliCmd
  /-- `g_cli_interactive`. -/
  interactive : Bool
  /-- `g_cli_inited`. -/
  inited : Bool
deriving DecidableEq

/-- What the commands depend on: the files, and the handlers that were registered. -/
structure CliEnv where
  files : CString → Option (List UInt8)
  plugin : Nat → CliState → List CString → CliState × Int

def nvCliFind (cmds : List CliCmd) (name : CString) : Option CliCmd :=
  cmds.find? fun n => equalIgnoreCase n.name name

def nvCliAddNode (s : CliState) (name help : CString) (handler : CliHandler) :
    CliState × NvRc :=
  if name = CString.empty then (s, .error)
  else if (nvCliFind s.cmds name).isSome then (s, .error)
  else
    let node : CliCmd :=
      { name := name.take 31
        help := help.take 127
        handler := handler }
    ({ s with cmds := node :: s.cmds }, .ok)

/-- The table of `nv_cli_register_builtins`. -/
def builtins : List (String × String × CliHandler) :=
  [("help", "show this help", .help),
    ("?", "show this help", .help),
    ("status", "process and loop status", .status),
    ("stat", "process and loop status", .status),
    ("uptime", "running time", .uptime),
    ("version", "libnv version", .version),
    ("ver", "libnv version", .version),
    ("workers", "worker/thread settings", .workers),
    ("config", "key configuration", .config),
    ("reload", "reload config file", .reload),
    ("quit", "leave CLI (daemon runs)", .exit),
    ("exit", "leave CLI (daemon runs)", .exit),
    ("shutdown", "same as quit", .exit),
    ("ping", "connectivity test", .ping)]

def nvCliRegisterBuiltins (s : CliState) : CliState :=
  builtins.foldl
    (fun s (name, help, handler) =>
      if (nvCliFind s.cmds (lit name)).isSome then s
      else (nvCliAddNode s (lit name) (lit help) handler).1)
    s

def nvCoreCliInit (s : CliState) : CliState :=
  if s.inited then s else nvCliRegisterBuiltins { s with inited := true }

def nvCliCmdReload (env : CliEnv) (s : CliState) : CliState × Int :=
  match nvCoreReloadConfig env.files s.ctx with
  | (ctx, .ok) => ({ s with ctx := ctx }, NvRc.ok.code)
  | (ctx, _) => ({ s with ctx := ctx }, NvRc.error.code)

def nvCliCmdExit (s : CliState) : CliState × Int :=
  if s.interactive then (s, nvCliCloseSession) else (s, NvRc.ok.code)

/-- `cmd->handler(ctx, fd, argc, argv)`. -/
def CliHandler.call (env : CliEnv) (s : CliState) (argv : List CString) :
    CliHandler → CliState × Int
  | .reload => nvCliCmdReload env s
  | .exit => nvCliCmdExit s
  | .plugin n => env.plugin n s argv
  -- the others print and return `NV_OK`
  | .help | .status | .uptime | .version | .workers | .config | .ping => (s, NvRc.ok.code)

/-- The loop of `nv_cli_split_args`, with room for `room` more words. -/
def splitArgsLoop : Nat → List UInt8 → List CString
  | 0, _ => []
  | room + 1, p =>
      match p.dropWhile isSpace with
      | [] => []
      | b :: rest =>
          CString.ofBuffer ((b :: rest).takeWhile (! isSpace ·)) ::
            splitArgsLoop room (((b :: rest).dropWhile (! isSpace ·)).drop 1)

def nvCliSplitArgs (line : List UInt8) (maxArgv : Nat) : List CString :=
  splitArgsLoop (maxArgv - 1) line

def nvCoreCliExecuteLine (env : CliEnv) (s : CliState) (fd : Int) (line : CString)
    (interactive : Bool) : CliState × Int :=
  if fd < 0 then (s, NvRc.error.code)
  else
    let s := { nvCoreCliInit s with interactive := interactive }
    let buf := (line.take (lineMax - 1)).bytes.rdropWhile fun b => b = 13 ∨ b = 10
    if buf = [] then (s, NvRc.ok.code)
    else
      match nvCliSplitArgs buf 16 with
      | [] => (s, NvRc.ok.code)
      | name :: args =>
          match nvCliFind s.cmds name with
          | some cmd =>
              let (s, rc) := cmd.handler.call env s (name :: args)
              ({ s with interactive := false }, rc)
          -- "unknown command: %s (try help)"
          | none => ({ s with interactive := false }, NvRc.error.code)

def nvCliFirstWordLen (line : List UInt8) (lineLen : Nat) : Nat :=
  ((line.take lineLen).takeWhile fun b => b ≠ 32 ∧ b ≠ 9).length

/-- The loop of `nv_cli_str_common_prefix`. -/
def commonPrefix : List UInt8 → List UInt8 → Nat
  | a :: as, b :: bs => if toLower a = toLower b then commonPrefix as bs + 1 else 0
  | _, _ => 0

def nvCliStrCommonPrefix (a b : CString) : Nat :=
  commonPrefix a.bytes b.bytes

def nvCliMatchesLcp : List CString → Nat
  | [] => 0
  | first :: others =>
      others.foldl (fun len m => min (nvCliStrCommonPrefix first m) len) first.length

def nvCliMatchExists (found : List CString) (name : CString) : Bool :=
  found.any fun m => equalIgnoreCase m name

/-- One round of the loop that collects names of commands. -/
def tabStep (line : CString) (wordLen : Nat) (found : List CString) (cmd : CliCmd) : List CString :=
  if found.length < 32 ∧ (wordLen = 0 ∨ equalIgnoreCaseN cmd.name line wordLen) ∧
      ¬ nvCliMatchExists found cmd.name then
    found ++ [cmd.name]
  else found

/-- The loop, which collects up to 32 names. -/
def tabMatches (cmds : List CliCmd) (line : CString) (wordLen : Nat) : List CString :=
  cmds.foldl (tabStep line wordLen) []

/-- `nv_cli_build_completed_line`, before it is cut to the size of `out`. -/
def nvCliBuildCompletedLine (cmd tail : List UInt8) : List UInt8 :=
  match tail with
  | [] => cmd ++ [32]
  | b :: _ => if b = 32 ∨ b = 9 then cmd ++ tail else cmd ++ [32] ++ tail

section TabComplete

variable {n : Nat}

/-- What `nv_core_cli_tab_complete` leaves in a line of `n` bytes, writes and returns. -/
structure Completion (n : Nat) where
  line : CBuffer n
  lineLen : Nat
  out : List (List UInt8)
  rc : NvRc

/-- `strncpy(line, new_line, line_max - 1)` with the terminator and the new length; `new_line`
has room for 511 bytes itself. -/
def putLine (line : CBuffer n) (newLine : List UInt8) : CBuffer n × Nat :=
  let newLine := CString.ofBuffer (newLine.take (lineMax - 1))
  let line := (line.strncpy newLine (n - 1)).poke (n - 1) 0
  (line, line.text.length)

/-- `nv_core_cli_tab_complete`, with `line_max = n` and the commands `cmds` registered. -/
def nvCoreCliTabComplete (cmds : List CliCmd) (fd : Int) (line : CBuffer n) (lineLen : Nat) :
    Completion n :=
  if n < 2 ∨ fd < 0 then ⟨line, lineLen, [], .error⟩
  else
    let line := line.poke lineLen 0
    let wordLen := nvCliFirstWordLen line.toList lineLen
    let found := tabMatches cmds line.text wordLen
    let tail :=
      if lineLen > wordLen then
        ((CString.ofBuffer (line.toList.drop wordLen)).take (lineMax - 1)).bytes
      else []
    match found with
    | [] => ⟨line, lineLen, [(lit "\x07").bytes], .ok⟩
    | [name] =>
        let put := putLine line (nvCliBuildCompletedLine name.bytes tail)
        ⟨put.1, put.2, [], .ok⟩
    | first :: others =>
        let lcpLen := nvCliMatchesLcp (first :: others)
        let put :=
          if lcpLen > wordLen then putLine line ((first.take lcpLen).bytes ++ tail)
          else (line, lineLen)
        let newline := (lit "\r\n").bytes
        ⟨put.1, put.2,
          newline :: (first :: others).map (fun m => m.bytes ++ [32, 32]) ++ [newline], .ok⟩

end TabComplete

end Libnv.Cli
