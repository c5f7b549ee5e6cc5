import Libnv.Lib.FileStore
import Libnv.Log.Emit

/-!
# The log file: opening, rotating and writing

Shallow embedding of the functions of `src/log/nv_log.c` that own `g_log_file`
and `g_rotate_path`.  A stream is the name it was opened on: it is closed before
any file is renamed, and every record is flushed when it is written.

The state also keeps the calls that changed files, in order, so that what holds
between two of them can be stated.
-/

namespace Libnv.Log

open FileStore

abbrev FileOp := Op CString CString

/-- The files and the static variables. -/
structure LogFiles where
  fs : Files CString UInt8
  /-- `g_log_file`. -/
  file : Option CString
  /-- `g_rotate_max_bytes`. -/
  rotateMaxBytes : Nat
  /-- `g_rotate_keep`. -/
  rotateKeep : Nat
  /-- `g_rotate_path`. -/
  rotatePath : CString
  trace : List FileOp

/-- What the environment answers during a call. -/
structure FileEnv where
  /-- `nv_log_async_start` succeeds. -/
  started : Bool
  /-- What `localtime_r` returns. -/
  now : Option LogTime
  /-- The `fopen` of a given or a default name succeeds. -/
  fopen : Bool
  /-- The `fopen` at the end of a rotation succeeds. -/
  reopen : Bool

/-- The state at process start, among the given files. -/
def logFilesInit (fs : Files CString UInt8) : LogFiles where
  fs := fs
  file := none
  rotateMaxBytes := 0
  rotateKeep := 0
  rotatePath := CString.empty
  trace := []

def LogFiles.sys (s : LogFiles) (ops : List FileOp) : LogFiles :=
  { s with fs := Transition.run (step CString.bytes) s.fs ops, trace := s.trace ++ ops }

section Functions

open CFormat

/-- The name in `nv_log_open_default_file`. -/
def defaultFilename (t : LogTime) : CString :=
  let timeStr := printInt 4 (t.tmYear + 1900) ++ printInt 2 (t.tmMon + 1) ++ printInt 2 t.tmMday ++
    CText.lit "-" ++ printInt 2 t.tmHour ++ printInt 2 t.tmMin ++ printInt 2 t.tmSec
  (CText.lit "/tmp/nv" ++ timeStr.take 63 ++ CText.lit "log").take 127

def nvLogOpenDefaultFile (s : LogFiles) (e : FileEnv) : LogFiles × Int :=
  match e.now with
  | none => (s, -1)
  | some t =>
      if e.fopen then
        ({ s.sys [.create (defaultFilename t)] with file := some (defaultFilename t) }, 0)
      else (s, -1)

def nvLogSetRotate (s : LogFiles) (maxBytes : Nat) (keepFiles : Int) : LogFiles :=
  { s with
    rotateMaxBytes := maxBytes
    rotateKeep := if 0 < keepFiles then keepFiles.toNat else 1 }

/-- `g_rotate_path` has 512 bytes. -/
def nvLogRememberPath (s : LogFiles) (path : Option CString) : LogFiles :=
  match path with
  | none => { s with rotatePath := CString.empty }
  | some path =>
      if path.length = 0 then { s with rotatePath := CString.empty }
      else { s with rotatePath := path.take 511 }

/-- `snprintf(oldpath, 560, "%s.%d", g_rotate_path, i)`. -/
def backup (path : CString) (i : Nat) : CString :=
  (path ++ CText.lit "." ++ decimal i).take 559

/-- The loop from `i` down to `1`. -/
def rotateLoop : Nat → LogFiles → LogFiles
  | 0, s => s
  | i + 1, s =>
      rotateLoop i (s.sys [.rename (backup s.rotatePath (i + 1)) (backup s.rotatePath (i + 2))])

def nvLogRotateIfNeeded (s : LogFiles) (e : FileEnv) : LogFiles :=
  if s.rotateMaxBytes = 0 ∨ s.rotatePath.length = 0 ∨ s.file = none then s
  else
    -- `stat` fails only on a missing file
    match s.fs s.rotatePath with
    | none => s
    | some c =>
        if c.length < s.rotateMaxBytes then s
        else
          let s := { s with file := none }
          let s := s.sys [.remove (backup s.rotatePath s.rotateKeep)]
          let s := rotateLoop (s.rotateKeep - 1) s
          let s := s.sys [.rename s.rotatePath ((s.rotatePath ++ CText.lit ".1").take 559)]
          if e.reopen then { s.sys [.create s.rotatePath] with file := some s.rotatePath } else s

def nvLogEnsureFileConsumer (s : LogFiles) (e : FileEnv) : LogFiles :=
  let s := if s.file = none then (nvLogOpenDefaultFile s e).1 else s
  nvLogRotateIfNeeded s e

/-- `nv_log_write_msg`, without the console and syslog. -/
def nvLogWriteMsg (s : LogFiles) (text : CString) (e : FileEnv) : LogFiles :=
  if text.length = 0 then s
  else
    let s := nvLogEnsureFileConsumer s e
    match s.file with
    | none => s
    | some fp => s.sys [.append fp text]

def nvLogInitFile (s : LogFiles) (path : Option CString) (e : FileEnv) : LogFiles × Int :=
  if e.started then
    match path with
    | none => nvLogOpenDefaultFile s e
    | some path =>
        if path.length = 0 then nvLogOpenDefaultFile s e
        else if e.fopen then
          (nvLogRememberPath { s.sys [.create path] with file := some path } (some path), 0)
        else (s, -1)
  else (s, -1)

def nvLogInit (s : LogFiles) (e : FileEnv) : LogFiles × Int :=
  if e.started then nvLogOpenDefaultFile s e else (s, -1)

/-- The part of `nv_log_close` after the ring is shut down. -/
def nvLogClose (s : LogFiles) : LogFiles :=
  { s with file := none }

end Functions

theorem LogFiles.sys_append (s : LogFiles) (as bs : List FileOp) :
    (s.sys as).sys bs = s.sys (as ++ bs) := by
  simp [LogFiles.sys]

def loopOps (path : CString) : Nat → List FileOp
  | 0 => []
  | i + 1 => .rename (backup path (i + 1)) (backup path (i + 2)) :: loopOps path i

theorem rotateLoop_eq (i : Nat) (s : LogFiles) :
    rotateLoop i s = s.sys (loopOps s.rotatePath i) := by
  induction i generalizing s with
  | zero => simp [rotateLoop, loopOps, LogFiles.sys]
  | succ i ih =>
      rw [rotateLoop, ih, LogFiles.sys_append]
      rfl

def rotateOps (path : CString) (keep : Nat) (reopen : Bool) : List FileOp :=
  .remove (backup path keep) :: loopOps path (keep - 1) ++
    [.rename path ((path ++ CText.lit ".1").take 559)] ++ if reopen then [.create path] else []

theorem nvLogRotateIfNeeded_cases (s : LogFiles) (e : FileEnv) :
    nvLogRotateIfNeeded s e = s ∨
      s.rotatePath.length ≠ 0 ∧ s.file ≠ none ∧
      nvLogRotateIfNeeded s e =
        { s.sys (rotateOps s.rotatePath s.rotateKeep e.reopen) with
          file := if e.reopen then some s.rotatePath else none } := by
  unfold nvLogRotateIfNeeded
  split
  · exact Or.inl rfl
  · rename_i hcond
    simp only [not_or] at hcond
    cases hstat : s.fs s.rotatePath with
    | none => exact Or.inl rfl
    | some c =>
        dsimp only
        split
        · exact Or.inl rfl
        · refine Or.inr ⟨hcond.2.1, hcond.2.2, ?_⟩
          rw [rotateLoop_eq]
          cases hopen : e.reopen with
          | false => simp [rotateOps, LogFiles.sys]
          | true => simp [rotateOps, LogFiles.sys]

end Libnv.Log
