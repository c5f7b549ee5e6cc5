import Libnv.Core.Config

/-!
# When a failed reload leaves the configuration as it was

The snapshot of `nv_core_reload_config` holds seven fields of `ctx->opts` and
the console flag, and its restore recomputes three fields of `ctx->conf` from
`ctx->opts`.  Everything else that `nv_core_load_config` has written stays.  A
failed reload is therefore without effect exactly when `ctx->conf` already
mirrors `ctx->opts` and every other setting that the load reached already had
the value the file gives it.
-/

namespace Libnv.Core

open CText Ini Log

section Agreement

variable (ini : IniFile) (sectionName key key' : String)

/-- The file does not give the string field another value. -/
def StrAgrees (cur : Option CString) : Prop :=
  ∀ v, nvIniGetString ini (lit sectionName) (lit key) none = some v → cur = some v

/-- The same for a setting with two names. -/
def StrAgrees₂ (cur : Option CString) : Prop :=
  ∀ v, (nvIniGetString ini (lit sectionName) (lit key) none).or
    (nvIniGetString ini (lit sectionName) (lit key') none) = some v → cur = some v

/-- The file does not give the flag another value. -/
def FlagAgrees (cur : Int) : Prop :=
  nvIniHasKey ini (lit sectionName) (lit key) →
    nvIniGetBool ini (lit sectionName) (lit key) cur = cur

/-- The file does not give the number another value. -/
def NumberAgrees (cur : Int) : Prop :=
  nvIniHasKey ini (lit sectionName) (lit key) →
    nvIniGetInt ini (lit sectionName) (lit key) cur = cur

/-- The file does not give the 64-bit number another value. -/
def Number64Agrees (cur : Int) : Prop :=
  nvIniHasKey ini (lit sectionName) (lit key) →
    nvIniGetInt64 ini (lit sectionName) (lit key) cur = cur

theorem or_eq_right_iff {α : Type} (x cur : Option α) :
    x.or cur = cur ↔ ∀ v, x = some v → cur = some v := by
  cases x with
  | none => simp
  | some v => simp [eq_comm]

theorem strSetting_eq_iff (cur : Option CString) :
    strSetting ini sectionName key cur = cur ↔ StrAgrees ini sectionName key cur :=
  or_eq_right_iff _ _

theorem strSetting₂_eq_iff (cur : Option CString) :
    strSetting₂ ini sectionName key key' cur = cur ↔
      StrAgrees₂ ini sectionName key key' cur := by
  unfold strSetting₂ strSetting StrAgrees₂
  rw [← Option.or_assoc]
  exact or_eq_right_iff _ _

theorem boolSetting_eq_iff (cur : Int) :
    boolSetting ini sectionName key cur = cur ↔ FlagAgrees ini sectionName key cur :=
  ite_eq_right_iff

theorem intSetting_eq_iff (cur : Int) :
    intSetting ini sectionName key cur = cur ↔ NumberAgrees ini sectionName key cur :=
  ite_eq_right_iff

theorem int64Setting_eq_iff (cur : Int) :
    int64Setting ini sectionName key cur = cur ↔ Number64Agrees ini sectionName key cur :=
  ite_eq_right_iff

end Agreement

/-- The three fields of `ctx->conf` that the restore derives from `ctx->opts`. -/
@[mk_iff] structure ConfMirrorsOpts (ctx : CoreCtx) : Prop where
  workerProcesses : ctx.opts.workerThreads = ctx.conf.workerProcesses
  workerConnections : ctx.opts.workerConnections = ctx.conf.workerConnections
  logLevel : ctx.opts.logLevel = ctx.conf.logLevel

/-- The file leaves the `[loadlib]` settings at their values. -/
@[mk_iff] structure LoadlibAgrees (ini : IniFile) (o : CoreOpts) : Prop where
  loadlibDir : StrAgrees₂ ini "loadlib" "plugin_dir" "dir" o.loadlibDir
  loadlibAllowAbsolute : FlagAgrees ini "loadlib" "allow_absolute" o.loadlibAllowAbsolute

/-- The file leaves every option that the snapshot does not hold at its value. -/
@[mk_iff] structure OptsAgree (ini : IniFile) (o : CoreOpts) : Prop where
  pidFile : StrAgrees₂ ini "main" "pid_file" "pid" o.pidFile
  logFile : StrAgrees ini "log" "log_file" o.logFile
  mqName : StrAgrees ini "ipc" "mq_name" o.mqName
  daemon : FlagAgrees ini "main" "daemon" o.daemon
  workerRespawn : FlagAgrees ini "worker" "respawn" o.workerRespawn
  systemdNotify : systemdSetting ini o.systemdNotify = o.systemdNotify
  maxOpenFiles : NumberAgrees ini "daemon" "max_open_files" o.maxOpenFiles
  coreLimit : Number64Agrees ini "daemon" "core_limit" o.coreLimit
  ctlSocket : StrAgrees ini "daemon" "ctl_socket" o.ctlSocket
  pubsubSocket : StrAgrees ini "ipc" "pubsub_socket" o.pubsubSocket
  instanceLock : StrAgrees ini "daemon" "instance_lock" o.instanceLock
  telnetEnable : FlagAgrees ini "cli" "telnet_enable" o.telnetEnable
  telnetPort : NumberAgrees ini "cli" "telnet_port" o.telnetPort
  telnetBind : StrAgrees ini "cli" "telnet_bind" o.telnetBind
  cliUsername : StrAgrees ini "cli" "username" o.cliUsername
  cliPassword : StrAgrees ini "cli" "password" o.cliPassword
  loadlibDir : StrAgrees₂ ini "loadlib" "plugin_dir" "dir" o.loadlibDir
  loadlibAllowAbsolute : FlagAgrees ini "loadlib" "allow_absolute" o.loadlibAllowAbsolute
  tombstoneFile : StrAgrees ini "daemon" "tombstone_file" o.tombstoneFile
  watchdogEnable : FlagAgrees ini "watchdog" "enable" o.watchdogEnable
  watchdogDevice : StrAgrees ini "watchdog" "device" o.watchdogDevice
  watchdogCmd : StrAgrees ini "watchdog" "cmd" o.watchdogCmd
  logRotateMaxMb : NumberAgrees ini "log" "rotate_max_mb" o.logRotateMaxMb
  logRotateKeep : rotateKeepSetting ini o.logRotateMaxMb o.logRotateKeep = o.logRotateKeep
  metricsPublish : FlagAgrees ini "metrics" "publish" o.metricsPublish
  metricsTopic : StrAgrees ini "metrics" "topic" o.metricsTopic

/-- The same for the fields of `ctx->conf` that are not restored. -/
@[mk_iff] structure ConfAgrees (ini : IniFile) (ctx : CoreCtx) : Prop where
  daemon : ctx.opts.daemon = ctx.conf.daemon
  pidFile : StrAgrees₂ ini "main" "pid_file" "pid" ctx.conf.pidFile
  logFile : StrAgrees ini "log" "log_file" ctx.conf.logFile

/-- The same for the overflow policy and the rotation limits. -/
structure LogAgrees (ini : IniFile) (ctx : CoreCtx) : Prop where
  overflow : ∀ policy,
    (nvIniGetString ini (lit "log") (lit "overflow") none).bind nvLogOverflowFromString =
      some policy → ctx.log.overflow = policy
  rotate : 0 < ctx.opts.logRotateMaxMb →
    ctx.log.rotateMaxBytes = toSize ctx.opts.logRotateMaxMb * 1024 * 1024 ∧
      ctx.log.rotateKeep = ctx.opts.logRotateKeep

/--
What the load reached, beyond the snapshot, already had its value: nothing
without a file, the `[loadlib]` settings when a directive is refused, and
otherwise every setting.
-/
def LoadAgrees (files : CString → Option (List UInt8)) (ctx : CoreCtx) : Prop :=
  match ctx.opts.configFile.bind files with
  | none => True
  | some content =>
      let ini := nvIniLoad content
      match (nvCoreLoadlibsParseConfig (loadLoadlibSection ini ctx.opts).loadlib
          ctx.loadlibsLoaded ctx.loadlibs (some content)).2 with
      | .error _ => LoadlibAgrees ini ctx.opts
      | .ok () => OptsAgree ini ctx.opts ∧ ConfAgrees ini ctx ∧ LogAgrees ini ctx

/-- Options, configuration, console flag, overflow policy and rotation limits are the same. -/
structure Unchanged (ctx ctx' : CoreCtx) : Prop where
  opts : ctx'.opts = ctx.opts
  conf : ctx'.conf = ctx.conf
  console : ctx'.log.console = ctx.log.console
  overflow : ctx'.log.overflow = ctx.log.overflow
  rotateMaxBytes : ctx'.log.rotateMaxBytes = ctx.log.rotateMaxBytes
  rotateKeep : ctx'.log.rotateKeep = ctx.log.rotateKeep

section Restore

/-- The options after a restore onto `o'`. -/
def restoredOpts (o o' : CoreOpts) : CoreOpts :=
  { o' with
    logLevel := o.logLevel
    workerThreads := o.workerThreads
    workerConnections := o.workerConnections
    workerProcesses := o.workerProcesses
    heartbeatIntervalSec := o.heartbeatIntervalSec
    shutdownTimeoutSec := o.shutdownTimeoutSec
    useSyslog := o.useSyslog }

/-- The `conf` after a restore onto `c'`. -/
def restoredConf (o : CoreOpts) (c' : CoreConf) : CoreConf :=
  { c' with
    logLevel := o.logLevel
    workerProcesses := o.workerThreads
    workerConnections := o.workerConnections }

/-- A failed reload, field by field; the console flag always comes back. -/
theorem unchanged_restore_iff (ctx ctx' : CoreCtx) :
    Unchanged ctx (nvCoreOptsSnapshotRestore ctx' (nvCoreOptsSnapshotSave ctx)) ↔
      restoredOpts ctx.opts ctx'.opts = ctx.opts ∧
      restoredConf ctx.opts ctx'.conf = ctx.conf ∧
      ctx'.log.overflow = ctx.log.overflow ∧
      ctx'.log.rotateMaxBytes = ctx.log.rotateMaxBytes ∧
      ctx'.log.rotateKeep = ctx.log.rotateKeep := by
  have hconsole : (nvLogGetConsole ctx.log ≠ 0) = ctx.log.console := by
    cases h : ctx.log.console <;> simp [nvLogGetConsole, h]
  constructor
  · rintro ⟨ho, hc, -, hover, hmax, hkeep⟩
    exact ⟨ho, hc, hover, hmax, hkeep⟩
  · rintro ⟨ho, hc, hover, hmax, hkeep⟩
    refine ⟨ho, hc, ?_, hover, hmax, hkeep⟩
    simp only [nvCoreOptsSnapshotRestore, nvCoreOptsSnapshotSave, nvLogSetConsole, hconsole]
    simp

theorem restoredOpts_self (o : CoreOpts) : restoredOpts o o = o := rfl

theorem restoredConf_self_iff (ctx : CoreCtx) :
    restoredConf ctx.opts ctx.conf = ctx.conf ↔ ConfMirrorsOpts ctx := by
  rw [CoreConf.ext_iff, confMirrorsOpts_iff]
  simp [restoredConf]

variable (ini : IniFile)

theorem restoredOpts_loadlib_iff (o : CoreOpts) :
    restoredOpts o (loadLoadlibSection ini o) = o ↔ LoadlibAgrees ini o := by
  rw [CoreOpts.ext_iff, loadlibAgrees_iff]
  simp [restoredOpts, loadLoadlibSection, strSetting₂_eq_iff, boolSetting_eq_iff]

theorem restoredOpts_load_iff (o : CoreOpts) :
    restoredOpts o (loadOpts ini (loadLoadlibSection ini o)) = o ↔ OptsAgree ini o := by
  rw [CoreOpts.ext_iff, optsAgree_iff, ← intSetting_eq_iff ini "log" "rotate_max_mb"]
  by_cases hmax : intSetting ini "log" "rotate_max_mb" o.logRotateMaxMb = o.logRotateMaxMb
  · simp only [restoredOpts, loadOpts, loadLoadlibSection, hmax, strSetting₂_eq_iff,
      strSetting_eq_iff, boolSetting_eq_iff, intSetting_eq_iff, int64Setting_eq_iff,
      true_and, and_true]
  · -- a new `rotate_max_mb` stays
    simp only [restoredOpts, loadOpts, loadLoadlibSection, hmax, false_and, and_false]

theorem restoredConf_load_iff (ctx : CoreCtx) (o : CoreOpts)
    (hdaemon : o.daemon = ctx.opts.daemon) :
    restoredConf ctx.opts (loadConf ini o ctx.conf) = ctx.conf ↔
      ConfMirrorsOpts ctx ∧ ConfAgrees ini ctx := by
  rw [CoreConf.ext_iff, confMirrorsOpts_iff, confAgrees_iff]
  simp only [restoredConf, loadConf, hdaemon, strSetting₂_eq_iff, strSetting_eq_iff]
  tauto

theorem loadLog_overflow (o : CoreOpts) (l : LogSettings) :
    (loadLog ini o l).overflow =
      ((nvIniGetString ini (lit "log") (lit "overflow") none).bind
        nvLogOverflowFromString).getD l.overflow := by
  simp only [loadLog, nvLogSetRotate, nvLogSetConsole, nvLogSetQueueSize]
  cases (nvIniGetString ini (lit "log") (lit "overflow") none).bind nvLogOverflowFromString <;>
    · dsimp only [Option.getD_some, Option.getD_none]
      repeat' split
      all_goals rfl

theorem loadLog_rotate (o : CoreOpts) (l : LogSettings) :
    (loadLog ini o l).rotateMaxBytes =
        (if 0 < o.logRotateMaxMb then toSize o.logRotateMaxMb * 1024 * 1024
          else l.rotateMaxBytes) ∧
      (loadLog ini o l).rotateKeep =
        (if 0 < o.logRotateMaxMb then
          if 0 < o.logRotateKeep then o.logRotateKeep else 1
        else l.rotateKeep) := by
  simp only [loadLog, nvLogSetConsole, nvLogSetQueueSize]
  by_cases hmax : 0 < o.logRotateMaxMb
  · simp only [if_pos hmax]
    exact ⟨rfl, rfl⟩
  · simp only [if_neg hmax]
    cases (nvIniGetString ini (lit "log") (lit "overflow") none).bind nvLogOverflowFromString <;>
      · dsimp only
        repeat' split
        all_goals exact ⟨rfl, rfl⟩

theorem one_le_rotateKeepSetting {maxMb : Int} (cur : Int) (hmax : 0 < maxMb) :
    1 ≤ rotateKeepSetting ini maxMb cur := by
  unfold rotateKeepSetting
  dsimp only
  split
  · exact Int.le_refl 1
  · rename_i h
    have hkeep : ¬ intSetting ini "log" "rotate_keep" cur < 1 := fun hlt => h ⟨hmax, hlt⟩
    omega

theorem loadLog_agrees_iff (ctx : CoreCtx) (o : CoreOpts)
    (hmax : o.logRotateMaxMb = ctx.opts.logRotateMaxMb)
    (hkeep : o.logRotateKeep = ctx.opts.logRotateKeep)
    (hpos : 0 < ctx.opts.logRotateMaxMb → 1 ≤ ctx.opts.logRotateKeep) :
    ((loadLog ini o ctx.log).overflow = ctx.log.overflow ∧
      (loadLog ini o ctx.log).rotateMaxBytes = ctx.log.rotateMaxBytes ∧
      (loadLog ini o ctx.log).rotateKeep = ctx.log.rotateKeep) ↔
    LogAgrees ini ctx := by
  obtain ⟨hbytes, hfiles⟩ := loadLog_rotate ini o ctx.log
  rw [loadLog_overflow, hbytes, hfiles, hmax, hkeep]
  constructor
  · rintro ⟨hover, hb, hf⟩
    refine ⟨?_, ?_⟩
    · intro policy hpolicy
      rw [hpolicy] at hover
      exact hover.symm
    · intro h
      have hk := hpos h
      rw [if_pos h] at hb hf
      rw [if_pos (by omega)] at hf
      exact ⟨hb.symm, hf.symm⟩
  · rintro ⟨hover, hrotate⟩
    refine ⟨?_, ?_⟩
    · cases h : (nvIniGetString ini (lit "log") (lit "overflow") none).bind
          nvLogOverflowFromString with
      | none => rfl
      | some policy => exact (hover policy h).symm
    · by_cases h : 0 < ctx.opts.logRotateMaxMb
      · obtain ⟨hb, hf⟩ := hrotate h
        have hk := hpos h
        rw [if_pos h, if_pos h, if_pos (by omega)]
        exact ⟨hb.symm, hf.symm⟩
      · rw [if_neg h, if_neg h]
        exact ⟨rfl, rfl⟩

end Restore

/-- A reload that fails restores the snapshot onto what the load left. -/
theorem reload_of_error {files : CString → Option (List UInt8)} {ctx : CoreCtx}
    (herror : (nvCoreReloadConfig files ctx).2 = .error) :
    (nvCoreReloadConfig files ctx).1 =
      nvCoreOptsSnapshotRestore (nvCoreLoadConfig files ctx).1 (nvCoreOptsSnapshotSave ctx) := by
  unfold nvCoreReloadConfig at herror ⊢
  dsimp only at herror ⊢
  split at herror
  · split at herror
    · cases herror
    · rename_i hload _ _ _
      simp only [hload]
  · rename_i hload
    simp only [hload]

theorem unchanged_load_iff (files : CString → Option (List UInt8)) (ctx : CoreCtx) :
    Unchanged ctx (nvCoreOptsSnapshotRestore (nvCoreLoadConfig files ctx).1
        (nvCoreOptsSnapshotSave ctx)) ↔
      ConfMirrorsOpts ctx ∧ LoadAgrees files ctx := by
  rw [unchanged_restore_iff]
  unfold nvCoreLoadConfig LoadAgrees
  cases hpath : ctx.opts.configFile with
  | none => simp [restoredOpts_self, restoredConf_self_iff]
  | some path =>
      simp only [Option.bind_some]
      cases hfile : files path with
      | none => simp [restoredOpts_self, restoredConf_self_iff]
      | some content =>
          dsimp only
          cases hparse : nvCoreLoadlibsParseConfig
              (loadLoadlibSection (nvIniLoad content) ctx.opts).loadlib ctx.loadlibsLoaded
              ctx.loadlibs (some content) with
          | mk libs result =>
              cases result with
              | error e =>
                  simp [restoredOpts_loadlib_iff, restoredConf_self_iff, and_comm]
              | ok u =>
                  dsimp only
                  rw [restoredOpts_load_iff, and_left_comm (a := ConfMirrorsOpts ctx)]
                  refine and_congr_right fun ho => ?_
                  have hopts := (restoredOpts_load_iff _ _).mpr ho
                  have hdaemon := congrArg CoreOpts.daemon hopts
                  have hmaxMb := congrArg CoreOpts.logRotateMaxMb hopts
                  have hkeep := congrArg CoreOpts.logRotateKeep hopts
                  refine (and_congr (restoredConf_load_iff _ ctx _ hdaemon) ?_).trans and_assoc
                  · refine loadLog_agrees_iff _ ctx _ hmaxMb hkeep fun hmax => ?_
                    rw [← ho.logRotateKeep]
                    exact one_le_rotateKeepSetting _ _ hmax

/--
A reload that returns `NV_ERROR` leaves the options, the configuration and the
log settings as they were exactly when `ctx->conf` mirrored `ctx->opts` and
every setting outside the snapshot that the load reached had the file's value.
-/
theorem nvCoreReloadConfig_atomic_iff
    (files : CString → Option (List UInt8))
    (ctx : CoreCtx)
    (herror : (nvCoreReloadConfig files ctx).2 = .error) :
    Unchanged ctx (nvCoreReloadConfig files ctx).1 ↔
      ConfMirrorsOpts ctx ∧ LoadAgrees files ctx := by
  rw [reload_of_error herror, unchanged_load_iff]

/-- The defaults, after an empty configuration file has been loaded. -/
def startedCtx : CoreCtx := (nvCoreLoadConfig (fun _ => some []) nvCoreSetDefaults).1

/-- A configuration file whose only setting is refused, and is in the snapshot. -/
def badThreadsFile : CString → Option (List UInt8) :=
  fun _ => some (lit "[worker]\nthreads = 0\n").bytes

theorem reload_restores_refused_threads :
    (nvCoreReloadConfig badThreadsFile startedCtx).2 = .error ∧
      Unchanged startedCtx (nvCoreReloadConfig badThreadsFile startedCtx).1 ∧
      ConfMirrorsOpts startedCtx ∧ LoadAgrees badThreadsFile startedCtx := by
  have herror : (nvCoreReloadConfig badThreadsFile startedCtx).2 = .error := by
    decide +kernel
  have hsame : Unchanged startedCtx (nvCoreReloadConfig badThreadsFile startedCtx).1 := by
    refine ⟨?_, ?_, ?_, ?_, ?_, ?_⟩ <;> decide +kernel
  exact ⟨herror, hsame, (nvCoreReloadConfig_atomic_iff _ _ herror).mp hsame⟩

/-- A configuration file whose only setting is refused by the validation. -/
def badPortFile : CString → Option (List UInt8) :=
  fun _ => some (lit "[cli]\ntelnet_port = 0\n").bytes

/-- The refused port stays in `ctx->opts` although the reload fails. -/
theorem reload_keeps_refused_port :
    (nvCoreReloadConfig badPortFile nvCoreSetDefaults).2 = .error ∧
      ¬ Unchanged nvCoreSetDefaults (nvCoreReloadConfig badPortFile nvCoreSetDefaults).1 := by
  refine ⟨by decide +kernel, ?_⟩
  intro h
  have hport := congrArg CoreOpts.telnetPort h.opts
  exact absurd hport (by decide +kernel)

end Libnv.Core
