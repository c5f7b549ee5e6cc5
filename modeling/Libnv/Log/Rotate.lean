import Libnv.Log.File

/-!
# Rotation loses only the oldest records

The backups of a log and the log itself are a chain of names, and a rotation
removes its oldest file and shifts the others.  Between any two calls that change
files, the chain holds the last records that were written, each in one file.
-/

namespace Libnv.Log

open Transition FileStore

section Names

def backups (path : CString) : Nat → List CString
  | 0 => []
  | k + 1 => backup path (k + 1) :: backups path k

/-- `path.keep`, ..., `path.1`, `path`. -/
def chain (path : CString) (keep : Nat) : List CString :=
  backups path keep ++ [path]

theorem mem_backups {path n : CString} {k : Nat} :
    n ∈ backups path k ↔ ∃ i, 1 ≤ i ∧ i ≤ k ∧ n = backup path i := by
  induction k with
  | zero =>
      simp only [backups, List.not_mem_nil, false_iff]
      rintro ⟨i, hi, hi', -⟩
      omega
  | succ k ih =>
      rw [backups, List.mem_cons, ih]
      constructor
      · rintro (rfl | ⟨i, hi, hi', rfl⟩)
        · exact ⟨k + 1, by omega, by omega, rfl⟩
        · exact ⟨i, hi, by omega, rfl⟩
      · rintro ⟨i, hi, hi', rfl⟩
        by_cases heq : i = k + 1
        · exact Or.inl (heq ▸ rfl)
        · exact Or.inr ⟨i, hi, by omega, rfl⟩

theorem backup_one (path : CString) : (path ++ CText.lit ".1").take 559 = backup path 1 := by
  have hone : CText.lit ".1" = CText.lit "." ++ CFormat.decimal 1 := by decide
  rw [hone, backup, CString.append_assoc]

/-- The renames of a rotation shift the chain. -/
theorem loopOps_append (path : CString) (k : Nat) :
    loopOps path k ++ [.rename path ((path ++ CText.lit ".1").take 559)] =
      shifts (chain path (k + 1)) := by
  induction k with
  | zero =>
      rw [backup_one]
      rfl
  | succ k ih =>
      rw [loopOps, List.cons_append, ih]
      rfl

variable {path : CString} (hpath : path.length < 512)
include hpath

/-- A path of `g_rotate_path` and an `int` fit into the buffers. -/
theorem backup_eq {i : Nat} (hi : i < 2 ^ 31) :
    backup path i = path ++ CText.lit "." ++ CFormat.decimal i := by
  have hdigits : (CFormat.decimal i).length ≤ 10 :=
    CFormat.length_decimal_le (by decide) (Nat.lt_trans hi (by decide))
  have hdot : (CText.lit ".").length = 1 := by decide
  refine CString.take_eq_self ?_
  rw [CString.length_append, CString.length_append]
  omega

theorem backup_injective
    {i j : Nat} (hi : i < 2 ^ 31) (hj : j < 2 ^ 31) (h : backup path i = backup path j) :
    i = j := by
  rw [backup_eq hpath hi, backup_eq hpath hj] at h
  exact CFormat.decimal_injective (CString.append_left_cancel h)

theorem backup_ne_path {i : Nat} (hi : i < 2 ^ 31) : backup path i ≠ path := by
  intro h
  have hlen := congrArg CString.length h
  have hdot : (CText.lit ".").length = 1 := by decide
  rw [backup_eq hpath hi, CString.length_append, CString.length_append] at hlen
  omega

theorem chain_nodup {keep : Nat} (hkeep : keep < 2 ^ 31) : (chain path keep).Nodup := by
  have hbackups : ∀ k, k ≤ keep → (backups path k).Nodup := by
    intro k
    induction k with
    | zero =>
        intro _
        exact List.nodup_nil
    | succ k ih =>
        intro hk
        refine List.nodup_cons.mpr ⟨?_, ih (by omega)⟩
        intro hmem
        obtain ⟨i, -, hi, heq⟩ := mem_backups.mp hmem
        have := backup_injective hpath (by omega) (by omega) heq
        omega
  refine List.nodup_append.mpr ⟨hbackups keep (Nat.le_refl _), List.nodup_singleton _, ?_⟩
  intro n hn m hm
  obtain ⟨i, -, hi, rfl⟩ := mem_backups.mp hn
  rw [List.mem_singleton.mp hm]
  exact backup_ne_path hpath (by omega)

end Names

section Writing

/-- The log of a process that was opened on `path`; without a rotate path it is never rotated. -/
structure Writing
    (fs : Files CString UInt8) (path : CString) (keep : Nat) (s : LogFiles) : Prop where
  file : s.file = some path
  rotate : s.rotatePath.length = 0 ∨ s.rotatePath = path
  rotateKeep : s.rotateKeep = keep
  files : s.fs = run (step CString.bytes) fs s.trace
  present : s.fs path ≠ none
  keeps : Along (step CString.bytes) (Keeps (chain path keep)) fs s.trace

variable {fs : Files CString UInt8} {path : CString} {keep : Nat} {s : LogFiles}

/-- More calls that keep the chain and leave a log behind. -/
theorem Writing.sys (h : Writing fs path keep s) {ops : List FileOp}
    (hkeeps : Along (step CString.bytes) (Keeps (chain path keep)) s.fs ops)
    (hpresent : (s.sys ops).fs path ≠ none) : Writing fs path keep (s.sys ops) := by
  refine ⟨h.file, h.rotate, h.rotateKeep, ?_, hpresent, ?_⟩
  · rw [LogFiles.sys, h.files, ← run_append]
  · rw [LogFiles.sys, along_append, ← h.files]
    exact ⟨h.keeps, hkeeps⟩

variable (hpath : path.length < 512)
include hpath

theorem along_rotateOps (hkeep : 1 ≤ keep) (hint : keep < 2 ^ 31) :
    Along (step CString.bytes) (Keeps (chain path keep)) s.fs
      (rotateOps path keep true) := by
  obtain ⟨k, rfl⟩ : ∃ k, keep = k + 1 := ⟨keep - 1, by omega⟩
  have hnodup := chain_nodup hpath hint
  rw [rotateOps, List.cons_append, Nat.add_sub_cancel, loopOps_append, List.cons_append]
  refine ⟨.remove rfl, ?_⟩
  rw [along_append]
  refine ⟨?_, .create (by simp [chain]), trivial⟩
  -- the name of the oldest backup is free now
  refine along_shifts (l := []) hnodup ?_
  rintro n ⟨⟩
  exact Function.update_self _ _ _

theorem Writing.rotateIfNeeded (hkeep : 1 ≤ keep) (hint : keep < 2 ^ 31)
    (h : Writing fs path keep s) {e : FileEnv} (he : e.reopen = true) :
    ∃ ops, Writing fs path keep (nvLogRotateIfNeeded s e) ∧
      (nvLogRotateIfNeeded s e).trace = s.trace ++ ops ∧ appended ops = [] := by
  rcases nvLogRotateIfNeeded_cases s e with hsame | ⟨hne, -, hrotate⟩
  · exact ⟨[], hsame.symm ▸ h, by simp [hsame], rfl⟩
  · have hrp : s.rotatePath = path := h.rotate.resolve_left hne
    rw [hrotate, he, hrp, h.rotateKeep, if_pos rfl]
    refine ⟨rotateOps path keep true, ?_, rfl, ?_⟩
    · have hsys := h.sys (along_rotateOps hpath hkeep hint) (by
        simp [LogFiles.sys, rotateOps, FileStore.step])
      exact ⟨rfl, hsys.rotate, hsys.rotateKeep, hsys.files, hsys.present, hsys.keeps⟩
    · obtain ⟨k, rfl⟩ : ∃ k, keep = k + 1 := ⟨keep - 1, by omega⟩
      rw [rotateOps, List.cons_append, Nat.add_sub_cancel, loopOps_append, List.cons_append]
      exact (appended_append _ _).trans (by rw [appended_shifts]; rfl)

/-- Step lemma: a record is written after the calls of a rotation, if any. -/
theorem Writing.writeMsg (hkeep : 1 ≤ keep) (hint : keep < 2 ^ 31)
    (h : Writing fs path keep s) (text : CString) {e : FileEnv} (he : e.reopen = true) :
    ∃ ops, Writing fs path keep (nvLogWriteMsg s text e) ∧
      (nvLogWriteMsg s text e).trace = s.trace ++ ops ∧
      appended ops = if text.length = 0 then [] else [text] := by
  unfold nvLogWriteMsg
  split
  · exact ⟨[], h, by simp, rfl⟩
  · obtain ⟨ops, hw, htrace, happended⟩ := h.rotateIfNeeded hpath hkeep hint he
    have hensure : nvLogEnsureFileConsumer s e = nvLogRotateIfNeeded s e := by
      simp [nvLogEnsureFileConsumer, h.file]
    rw [hensure]
    dsimp only
    rw [hw.file]
    dsimp only
    obtain ⟨c, hc⟩ := Option.ne_none_iff_exists'.mp hw.present
    refine ⟨ops ++ [.append path text], hw.sys ⟨.append text rfl hw.present, trivial⟩ ?_, ?_, ?_⟩
    · simp [LogFiles.sys, FileStore.step, hc]
    · simp [LogFiles.sys, htrace]
    · rw [appended_append, happended]
      rfl

/-- `nv_log_write_msg` on the next record. -/
def writeStep (s : LogFiles) (w : CString × FileEnv) : LogFiles := nvLogWriteMsg s w.1 w.2

/-- Run lemma: the records that are not empty are appended in order. -/
theorem Writing.run (hkeep : 1 ≤ keep) (hint : keep < 2 ^ 31)
    (h : Writing fs path keep s) (writes : List (CString × FileEnv))
    (hopen : ∀ w ∈ writes, w.2.reopen = true) :
    Writing fs path keep (run writeStep s writes) ∧
      appended (run writeStep s writes).trace =
        appended s.trace ++ (writes.map Prod.fst).filter (fun text => text.length ≠ 0) := by
  induction writes generalizing s with
  | nil => exact ⟨h, by simp⟩
  | cons w writes ih =>
      obtain ⟨ops, hw, htrace, hops⟩ :=
        h.writeMsg hpath hkeep hint w.1 (hopen w List.mem_cons_self)
      obtain ⟨hrun, happended⟩ := ih hw fun w' hw' => hopen w' (List.mem_cons_of_mem _ hw')
      refine ⟨hrun, happended.trans ?_⟩
      rw [htrace, appended_append, hops, List.append_assoc, List.map_cons, List.filter_cons]
      by_cases hempty : w.1.length = 0
      · simp [hempty]
      · simp [hempty]

end Writing

/-- The files among `fs` after some calls. -/
structure RotationOk
    (fs : Files CString UInt8) (path : CString) (keep : Nat) (ops : List FileOp) : Prop where
  /-- The chain holds the end of what was written. -/
  suffix : joined (run (step CString.bytes) fs ops) (chain path keep) <:+
    (appended ops).flatMap CString.bytes
  /-- Each of its files holds whole records. -/
  whole : ∃ files : CString → List CString,
    (∀ n ∈ chain path keep, contents (run (step CString.bytes) fs ops) n =
      (files n).flatMap CString.bytes) ∧
    (chain path keep).flatMap files <:+ appended ops
  /-- No other name was used, and no other file has changed. -/
  touched : ∀ op ∈ ops, ∀ n ∈ op.touches, n ∈ chain path keep
  others : ∀ n, n ∉ chain path keep → run (step CString.bytes) fs ops n = fs n

theorem rotationOk_of_along
    {fs : Files CString UInt8} {path : CString} {keep : Nat} {ops : List FileOp}
    (hnodup : (chain path keep).Nodup) (hnew : ∀ n ∈ chain path keep, fs n = none)
    (h : Along (step CString.bytes) (Keeps (chain path keep)) fs ops) :
    RotationOk fs path keep ops := by
  obtain ⟨files, hstores, hsuffix⟩ := exists_stores_run hnodup hnew h
  have htouched := touches_of_along h
  refine ⟨hstores.joined_suffix hsuffix, ⟨files, hstores.contents, hsuffix⟩, htouched, ?_⟩
  intro n hn
  exact run_frame _ fs fun op hop hmem => hn (htouched op hop n hmem)

/-- The file that `nv_log_init_file(path)` opens. -/
def logPath (path : CString) (t : LogTime) : CString :=
  if path.length = 0 then defaultFilename t else path

/-- `nv_log_set_rotate` and a successful `nv_log_init_file` at process start. -/
def openedLog (fs : Files CString UInt8) (path : CString) (maxBytes : Nat) (keep : Int)
    (t : LogTime) : LogFiles :=
  (nvLogInitFile (nvLogSetRotate (logFilesInit fs) maxBytes keep) (some path)
    { started := true, now := some t, fopen := true, reopen := true }).1

theorem length_logPath {path : CString} (hpath : path.length < 512) (t : LogTime) :
    (logPath path t).length < 512 := by
  unfold logPath
  split
  · exact Nat.lt_of_le_of_lt (CString.length_take_le _ 127) (by decide)
  · exact hpath

theorem openedLog_eq
    (fs : Files CString UInt8) {path : CString} (hpath : path.length < 512) (maxBytes : Nat)
    (keep : Int) (t : LogTime) :
    ∃ rotatePath : CString, (rotatePath.length = 0 ∨ rotatePath = logPath path t) ∧
      openedLog fs path maxBytes keep t =
        { (nvLogSetRotate (logFilesInit fs) maxBytes keep).sys [.create (logPath path t)] with
          file := some (logPath path t)
          rotatePath := rotatePath } := by
  by_cases hempty : path.length = 0
  · refine ⟨CString.empty, Or.inl rfl, ?_⟩
    simp [openedLog, nvLogInitFile, nvLogOpenDefaultFile, hempty, logPath, LogFiles.sys,
      nvLogSetRotate, logFilesInit]
  · refine ⟨logPath path t, Or.inr rfl, ?_⟩
    simp [openedLog, nvLogInitFile, nvLogRememberPath, hempty, logPath,
      CString.take_eq_self (Nat.le_of_lt_succ hpath)]

theorem writing_openedLog
    (fs : Files CString UInt8) {path : CString} (hpath : path.length < 512) (maxBytes : Nat)
    {keep : Int} (hkeep : 1 ≤ keep) (t : LogTime) :
    Writing fs (logPath path t) keep.toNat (openedLog fs path maxBytes keep t) ∧
      appended (openedLog fs path maxBytes keep t).trace = [] := by
  have hmem : logPath path t ∈ chain (logPath path t) keep.toNat := by simp [chain]
  obtain ⟨rotatePath, hrotate, hopened⟩ := openedLog_eq fs hpath maxBytes keep t
  rw [hopened]
  refine ⟨⟨rfl, hrotate, if_pos (by omega), rfl, ?_, ⟨.create hmem, trivial⟩⟩, rfl⟩
  simp [LogFiles.sys, FileStore.step]

/--
For every path shorter than 512 bytes that has no files yet, every number of backups and
every size limit, and all records: the records are appended in order, and between any two
calls that change files, from the opening on, the backups and the log together are the end
of what was written, no record is split across two files, and no other file is touched.
-/
theorem nvLogRotate_loses_only_oldest
    (fs : Files CString UInt8)
    (path : CString)
    (hpath : path.length < 512)
    (maxBytes : Nat)
    (keep : Int)
    (hkeep : 1 ≤ keep)
    (hint : keep < 2 ^ 31)
    (t : LogTime)
    (hnew : ∀ n ∈ chain (logPath path t) keep.toNat, fs n = none)
    (writes : List (CString × FileEnv))
    (hopen : ∀ w ∈ writes, w.2.reopen = true) :
    let s := Transition.run writeStep (openedLog fs path maxBytes keep t) writes
    s.fs = Transition.run (step CString.bytes) fs s.trace ∧
      appended s.trace = (writes.map Prod.fst).filter (fun text => text.length ≠ 0) ∧
      ∀ ops, ops <+: s.trace → RotationOk fs (logPath path t) keep.toNat ops := by
  intro s
  have hlen := length_logPath hpath t
  have hnat : keep.toNat < 2 ^ 31 := by omega
  obtain ⟨hopened, hstart⟩ := writing_openedLog fs hpath maxBytes hkeep t
  obtain ⟨hs, happended⟩ := hopened.run hlen (by omega) hnat writes hopen
  rw [hstart, List.nil_append] at happended
  refine ⟨hs.files, happended, ?_⟩
  · rintro ops ⟨later, htrace⟩
    have hkeeps : Along (step CString.bytes)
        (Keeps (chain (logPath path t) keep.toNat)) fs (ops ++ later) := htrace ▸ hs.keeps
    exact rotationOk_of_along (chain_nodup hlen hnat) hnew
      ((along_append _ _ _).mp hkeeps).1

/-- Three records, two backups and a limit of one byte: every record gets a file of its own. -/
theorem nvLogRotate_three_records :
    let a := CText.lit "a.log"
    let e : FileEnv := { started := true, now := none, fopen := true, reopen := true }
    let t : LogTime :=
      { tmYear := 126, tmMon := 10, tmMday := 16, tmHour := 9, tmMin := 5, tmSec := 7, msec := 0 }
    let s := Transition.run writeStep (openedLog (fun _ => none) a 1 2 t)
      [(CText.lit "x", e), (CText.lit "y", e), (CText.lit "z", e)]
    appended s.trace = [CText.lit "x", CText.lit "y", CText.lit "z"] ∧
      ∀ ops, ops <+: s.trace → RotationOk (fun _ => none) a 2 ops :=
  ⟨(nvLogRotate_loses_only_oldest (fun _ => none) (CText.lit "a.log") (by decide) 1 2 (by decide)
      (by decide) _ (fun _ _ => rfl) _ (by simp)).2.1.trans (by decide),
    (nvLogRotate_loses_only_oldest (fun _ => none) (CText.lit "a.log") (by decide) 1 2 (by decide)
      (by decide) _ (fun _ _ => rfl) _ (by simp)).2.2⟩

end Libnv.Log
