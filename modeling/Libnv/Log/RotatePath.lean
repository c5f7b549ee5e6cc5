import Libnv.Log.File

/-!
# Rotation and the file that is being written

Only `nv_log_init_file` with a path records it in `g_rotate_path`, cut to 511
bytes; the default file is opened in three places that leave the recorded path as
it is.  Rotation works on the recorded path.
-/

namespace Libnv.Log

inductive FileCall where
  | setRotate (maxBytes : Nat) (keepFiles : Int)
  | initFile (path : Option CString) (e : FileEnv)
  | init (e : FileEnv)
  | close
  | write (text : CString) (e : FileEnv)

/-- One call. -/
def fileStep (s : LogFiles) : FileCall → LogFiles
  | .setRotate maxBytes keepFiles => nvLogSetRotate s maxBytes keepFiles
  | .initFile path e => (nvLogInitFile s path e).1
  | .init e => (nvLogInit s e).1
  | .close => nvLogClose s
  | .write text e => nvLogWriteMsg s text e

/-- `nv_core_log_init`, up to the level and syslog: what `nv_log_init_file` cannot open is
replaced by the default file. -/
def nvCoreLogInit (s : LogFiles) (logFile : Option CString) (e e' : FileEnv) : LogFiles × Int :=
  match nvLogInitFile s logFile e with
  | (s', rc) =>
      if rc ≠ 0 then
        match nvLogInit s' e' with
        | (s'', rc') => if rc' ≠ 0 then (s'', -1) else (s'', 0)
      else (s', 0)

/-- An open log with a recorded path is open on that path. -/
def RotatesCurrent (s : LogFiles) : Prop :=
  s.rotatePath.length ≠ 0 → ∀ f, s.file = some f → f = s.rotatePath

/-- The state in which a write decides about a rotation. -/
def rotationPoint (s : LogFiles) (e : FileEnv) : LogFiles :=
  if s.file = none then (nvLogOpenDefaultFile s e).1 else s

/-- The log is open on the recorded path after the call, and when it decides about a rotation. -/
def CallSound (s : LogFiles) (a : FileCall) : Prop :=
  RotatesCurrent (fileStep s a) ∧
    match a with
    | .write text e => text.length ≠ 0 → RotatesCurrent (rotationPoint s e)
    | _ => True

/-- If the default file can be opened, no path is recorded or the same name is. -/
def DefaultOk (s : LogFiles) (e : FileEnv) : Prop :=
  ∀ t, e.now = some t → e.fopen = true →
    s.rotatePath.length = 0 ∨ defaultFilename t = s.rotatePath

/-- A given path fits into `g_rotate_path`, and the default file is opened only if it may be. -/
def CallOk (s : LogFiles) : FileCall → Prop
  | .setRotate _ _ => True
  | .initFile path e =>
      e.started = true →
        match path with
        | none => DefaultOk s e
        | some path =>
            if path.length = 0 then DefaultOk s e else e.fopen = true → path.length ≤ 511
  | .init e => e.started = true → DefaultOk s e
  | .close => True
  | .write text e => text.length ≠ 0 → s.file = none → DefaultOk s e

section Steps

variable {s : LogFiles}

theorem rotatesCurrent_openDefault_iff (hs : RotatesCurrent s) (e : FileEnv) :
    RotatesCurrent (nvLogOpenDefaultFile s e).1 ↔ DefaultOk s e := by
  unfold nvLogOpenDefaultFile DefaultOk
  cases hnow : e.now with
  | none => simp [hs]
  | some t =>
      dsimp only
      cases hopen : e.fopen with
      | false => simp [hs]
      | true =>
          simp only [if_true, Option.some.injEq, RotatesCurrent, LogFiles.sys]
          constructor
          · rintro h t' rfl -
            by_cases hempty : s.rotatePath.length = 0
            · exact Or.inl hempty
            · exact Or.inr (h hempty _ rfl)
          · rintro h hne f rfl
            exact (h t rfl trivial).resolve_left hne

theorem rotatesCurrent_initFile_iff (hs : RotatesCurrent s) (path : Option CString) (e : FileEnv) :
    RotatesCurrent (nvLogInitFile s path e).1 ↔ CallOk s (.initFile path e) := by
  unfold nvLogInitFile CallOk
  cases hstarted : e.started with
  | false => simp [hs, hstarted]
  | true =>
      cases path with
      | none => simpa [hstarted] using rotatesCurrent_openDefault_iff hs e
      | some path =>
          by_cases hempty : path.length = 0
          · simpa [hstarted, hempty] using rotatesCurrent_openDefault_iff hs e
          · cases hopen : e.fopen with
            | false => simp [hempty, hs, hopen]
            | true =>
                simp only [hstarted, hopen, hempty, if_true, if_false, nvLogRememberPath,
                  RotatesCurrent, LogFiles.sys, Option.some.injEq, true_imp_iff]
                have hlen : (path.take 511).length = min 511 path.length := List.length_take
                constructor
                · intro h
                  have heq := congrArg CString.length (h (by omega) path rfl)
                  omega
                · rintro h - f rfl
                  exact (CString.take_eq_self h).symm

/-- A rotation ends with a log that is closed, or open on the recorded path. -/
theorem RotatesCurrent.rotateIfNeeded (hs : RotatesCurrent s) (e : FileEnv) :
    RotatesCurrent (nvLogRotateIfNeeded s e) := by
  rcases nvLogRotateIfNeeded_cases s e with hsame | ⟨-, -, hrotate⟩
  · rw [hsame]
    exact hs
  · rw [hrotate]
    intro _ f hf
    cases hopen : e.reopen with
    | false =>
        rw [hopen] at hf
        cases hf
    | true =>
        rw [hopen] at hf
        exact (Option.some.inj hf).symm

theorem RotatesCurrent.write {text : CString} (hne : text.length ≠ 0) {e : FileEnv}
    (hpoint : RotatesCurrent (rotationPoint s e)) : RotatesCurrent (nvLogWriteMsg s text e) := by
  have hensure : RotatesCurrent (nvLogEnsureFileConsumer s e) := hpoint.rotateIfNeeded e
  rw [nvLogWriteMsg, if_neg hne]
  dsimp only
  cases (nvLogEnsureFileConsumer s e).file with
  | none => exact hensure
  | some fp => exact hensure

theorem rotatesCurrent_rotationPoint_iff (hs : RotatesCurrent s) (e : FileEnv) :
    RotatesCurrent (rotationPoint s e) ↔ (s.file = none → DefaultOk s e) := by
  unfold rotationPoint
  split
  · rename_i hfile
    exact (rotatesCurrent_openDefault_iff hs e).trans ⟨fun h _ => h, fun h => h hfile⟩
  · rename_i hfile
    exact ⟨fun _ h => absurd h hfile, fun _ => hs⟩

/-- One call, from a state in which rotation works on the current file. -/
theorem callSound_iff (hs : RotatesCurrent s) (a : FileCall) : CallSound s a ↔ CallOk s a := by
  cases a with
  | setRotate maxBytes keepFiles => exact ⟨fun _ => trivial, fun _ => ⟨hs, trivial⟩⟩
  | initFile path e => exact (and_iff_left trivial).trans (rotatesCurrent_initFile_iff hs path e)
  | init e =>
      refine (and_iff_left trivial).trans ?_
      simp only [fileStep, nvLogInit, CallOk]
      cases hstarted : e.started with
      | false => simp [hs]
      | true => simpa using rotatesCurrent_openDefault_iff hs e
  | close =>
      refine ⟨fun _ => trivial, fun _ => ⟨?_, trivial⟩⟩
      intro _ f hf
      cases hf
  | write text e =>
      by_cases hempty : text.length = 0
      · have hsame : nvLogWriteMsg s text e = s := if_pos hempty
        refine ⟨fun _ h => absurd hempty h, fun _ => ⟨?_, fun h => absurd hempty h⟩⟩
        rw [fileStep, hsame]
        exact hs
      · constructor
        · intro hsound _
          exact (rotatesCurrent_rotationPoint_iff hs e).mp (hsound.2 hempty)
        · intro hok
          have hpoint := (rotatesCurrent_rotationPoint_iff hs e).mpr (hok hempty)
          exact ⟨hpoint.write hempty, fun _ => hpoint⟩

/--
For every sequence of calls, with any outcome of `fopen`, `localtime_r` and
`nv_log_async_start`: after every call and whenever a write decides about a rotation, an
open log with a recorded path is open on that path, if and only if every path given to
`nv_log_init_file` that could be opened has at most 511 bytes and the default file is
opened only while no path is recorded, or under the recorded name.
-/
theorem nvLog_rotates_current_iff
    (fs : FileStore.Files CString UInt8)
    (as : List FileCall) :
    Transition.Along fileStep CallSound (logFilesInit fs) as ↔
      Transition.Along fileStep CallOk (logFilesInit fs) as := by
  have hinit : RotatesCurrent (logFilesInit fs) := fun h => absurd rfl h
  exact Transition.along_iff_along_of_inv hinit
    (fun s a hs hok => ((callSound_iff hs a).mpr hok).1) (fun s a hs => callSound_iff hs a) as

end Steps

/-- Everything succeeds, at a fixed time. -/
def fileEnvOk : FileEnv where
  started := true
  now := some
    { tmYear := 126, tmMon := 10, tmMday := 16, tmHour := 9, tmMin := 5, tmSec := 7, msec := 0 }
  fopen := true
  reopen := true

/-- A log, one record, the default log and another record, rotated at one byte. -/
def mismatchRun : List FileCall :=
  [.setRotate 1 1, .initFile (some (CText.lit "a.log")) fileEnvOk,
    .write (CText.lit "x") fileEnvOk, .init fileEnvOk, .write (CText.lit "y") fileEnvOk]

/--
After `nv_log_init_file("a.log")`, `nv_log_init` opens `/tmp/nv20261116-090507log` and
leaves `a.log` recorded, and so does `nv_core_log_init` with a file that cannot be
opened; the next write renames `a.log`, which is not the log, and goes to a new `a.log`.
-/
theorem nvLog_rotates_other_file :
    ¬ Transition.Along fileStep CallSound (logFilesInit fun _ => none)
        [.initFile (some (CText.lit "a.log")) fileEnvOk, .init fileEnvOk] ∧
      ¬ RotatesCurrent (nvCoreLogInit
        (Transition.run fileStep (logFilesInit fun _ => none)
          [.initFile (some (CText.lit "a.log")) fileEnvOk])
        (some (CText.lit "b.log")) { fileEnvOk with fopen := false } fileEnvOk).1 ∧
      (Transition.run fileStep (logFilesInit fun _ => none) (mismatchRun.take 4)).file =
        some (CText.lit "/tmp/nv20261116-090507log") ∧
      FileStore.Op.rename (CText.lit "a.log") (CText.lit "a.log.1") ∈
        (Transition.run fileStep (logFilesInit fun _ => none) mismatchRun).trace ∧
      (Transition.run fileStep (logFilesInit fun _ => none) mismatchRun).file =
        some (CText.lit "a.log") := by
  refine ⟨?_, ?_, by decide +kernel, by decide +kernel, by decide +kernel⟩
  · rintro ⟨-, hinit, -⟩
    exact absurd (hinit.1 (by decide) _ rfl) (by decide +kernel)
  · intro h
    exact absurd (h (by decide) _ rfl) (by decide +kernel)

end Libnv.Log
