import Libnv.Base.Ini
import Libnv.Base.Status
import Libnv.Core.Loadlib
import Libnv.Log.Ring

/-!
# Loading, validating and reloading the configuration

`nv_core_load_config` copies every setting that the INI file names into
`ctx->opts`, some of them also into `ctx->conf` and into the global log
settings.  `nv_core_reload_config` takes a snapshot of eight values, loads,
validates, and on failure puts the snapshot back.

A string field is modelled by its contents, `none` being `NULL`.  Allocation is
taken to succeed, and the file does not change while it is read.
-/

namespace Libnv.Core

open CText Ini Log

/-- `nv_core_opts_t`. -/
@[ext] structure CoreOpts where
  progName : Option CString
  configFile : Option CString
  pidFile : Option CString
  logFile : Option CString
  mqName : Option CString
  daemon : Int
  foreground : Int
  useSyslog : Int
  logLevel : Int
  workerThreads : Int
  workerConnections : Int
  workerProcesses : Int
  workerRespawn : Int
  heartbeatIntervalSec : Int
  shutdownTimeoutSec : Int
  systemdNotify : Int
  maxOpenFiles : Int
  coreLimit : Int
  ctlSocket : Option CString
  pubsubSocket : Option CString
  instanceLock : Option CString
  telnetEnable : Int
  telnetPort : Int
  telnetBind : Option CString
  cliUsername : Option CString
  cliPassword : Option CString
  loadlibDir : Option CString
  loadlibAllowAbsolute : Int
  tombstoneFile : Option CString
  watchdogEnable : Int
  watchdogDevice : Option CString
  watchdogCmd : Option CString
  logRotateMaxMb : Int
  logRotateKeep : Int
  metricsPublish : Int
  metricsTopic : Option CString
  help : Int
  version : Int
deriving DecidableEq

/-- `nv_conf_t`, without the module table that none of these functions touches. -/
@[ext] structure CoreConf where
  daemon : Int
  workerProcesses : Int
  workerConnections : Int
  pidFile : Option CString
  logFile : Option CString
  logLevel : Int
deriving DecidableEq

/-- The global settings of the log. -/
structure LogSettings where
  level : Int
  console : Bool
  overflow : LogOverflow
  /-- `g_ring_capacity`. -/
  ringCapacity : Nat
  /-- `g_ring.capacity`, zero while there is no ring. -/
  activeCapacity : Nat
  asyncReady : Bool
  rotateMaxBytes : Nat
  rotateKeep : Int
deriving DecidableEq

/-- The parts of `nv_core_ctx_t` and of the log that a reload can touch. -/
structure CoreCtx where
  opts : CoreOpts
  conf : CoreConf
  log : LogSettings
  ini : Option IniFile
  loadlibs : List LoadLib
  loadlibsLoaded : Bool
deriving DecidableEq

/-- The options that `nv_core_set_defaults` sets. -/
def defaultOpts : CoreOpts where
  progName := none
  configFile := some (lit "/etc/nv/nv.conf")
  pidFile := some (lit "/var/run/nv.pid")
  logFile := some (lit "/var/log/nv.log")
  mqName := some (lit "/nv_core_mq")
  daemon := 0
  foreground := 0
  useSyslog := 0
  logLevel := 1
  workerThreads := 1
  workerConnections := 128
  workerProcesses := 0
  workerRespawn := 1
  heartbeatIntervalSec := 60
  shutdownTimeoutSec := 30
  systemdNotify := -1
  maxOpenFiles := 0
  coreLimit := -1
  ctlSocket := some (lit "/var/run/nv.ctl.sock")
  pubsubSocket := some (lit "/tmp/nv_pubsub.sock")
  instanceLock := some (lit "libnv")
  telnetEnable := 0
  telnetPort := 2323
  telnetBind := some (lit "127.0.0.1")
  cliUsername := some (lit "admin")
  cliPassword := some (lit "")
  loadlibDir := some (lit "/usr/lib/nv/plugins")
  loadlibAllowAbsolute := 0
  tombstoneFile := some (lit "/var/log/nv.tombstone")
  watchdogEnable := 0
  watchdogDevice := some (lit "/dev/watchdog")
  watchdogCmd := some (lit "")
  logRotateMaxMb := 4
  logRotateKeep := 3
  metricsPublish := 0
  metricsTopic := some (lit "nv/metrics")
  help := 0
  version := 0

/-- The log settings that `nv_log.c` starts with. -/
def defaultLog : LogSettings where
  level := 1
  console := true
  overflow := .drop
  ringCapacity := 2048
  activeCapacity := 0
  asyncReady := false
  rotateMaxBytes := 0
  rotateKeep := 0

def nvCoreSetDefaults : CoreCtx where
  opts := defaultOpts
  conf :=
    { daemon := 0
      workerProcesses := defaultOpts.workerThreads
      workerConnections := defaultOpts.workerConnections
      pidFile := defaultOpts.pidFile
      logFile := defaultOpts.logFile
      logLevel := defaultOpts.logLevel }
  log := defaultLog
  ini := none
  loadlibs := []
  loadlibsLoaded := false

/-- No value of `nv_log_level_e` is negative, so that its type is unsigned. -/
def nvLogSetLevel (l : LogSettings) (level : Int) : LogSettings :=
  let level := level % 0x100000000
  { l with level := if level < 0 then 0 else if 7 ≤ level then 6 else level }

def nvLogSetConsole (l : LogSettings) (enable : Int) : LogSettings :=
  { l with console := enable ≠ 0 }

def nvLogGetConsole (l : LogSettings) : Int :=
  if l.console then 1 else 0

def nvLogGetQueueSize (l : LogSettings) : Nat :=
  if l.activeCapacity ≠ 0 then l.activeCapacity else l.ringCapacity

def nvLogSetQueueSize (l : LogSettings) (capacity : Nat) : LogSettings :=
  if l.asyncReady then l else { l with ringCapacity := nvLogRoundPow2 capacity }

def nvLogSetRotate (l : LogSettings) (maxBytes : Nat) (keepFiles : Int) : LogSettings :=
  { l with
    rotateMaxBytes := maxBytes
    rotateKeep := if 0 < keepFiles then keepFiles else 1 }

def nvLogLevelFromString (name : CString) : Option Int :=
  if equalIgnoreCase name (lit "debug") ∨ equalIgnoreCase name (lit "dump") then some 0
  else if equalIgnoreCase name (lit "info") then some 1
  else if equalIgnoreCase name (lit "notice") then some 2
  else if equalIgnoreCase name (lit "warning") ∨ equalIgnoreCase name (lit "warn") then
    some 3
  else if equalIgnoreCase name (lit "error") then some 4
  else if equalIgnoreCase name (lit "crit") ∨ equalIgnoreCase name (lit "critical") then
    some 5
  else if equalIgnoreCase name (lit "fatal") then some 6
  else
    let (v, rest) := strtol name
    if rest = name.bytes ∨ v < 0 ∨ 7 ≤ v then none else some v

def nvLogOverflowFromString (name : CString) : Option LogOverflow :=
  if equalIgnoreCase name (lit "drop") then some .drop
  else if equalIgnoreCase name (lit "block") then some .block
  else if equalIgnoreCase name (lit "overwrite") ∨ equalIgnoreCase name (lit "cover") then
    some .overwrite
  else none

def nvCoreParseLogLevel (v : CString) : Int :=
  (nvLogLevelFromString v).getD 1

/-- A string setting: the field takes the value that the file gives. -/
def strSetting (ini : IniFile) (sectionName key : String) (cur : Option CString) :
    Option CString :=
  (nvIniGetString ini (lit sectionName) (lit key) none).or cur

/-- A string setting with a second name that counts when the first is absent. -/
def strSetting₂ (ini : IniFile) (sectionName key key' : String) (cur : Option CString) :
    Option CString :=
  strSetting ini sectionName key (strSetting ini sectionName key' cur)

/-- A flag: a text that is no truth value leaves the field alone. -/
def boolSetting (ini : IniFile) (sectionName key : String) (cur : Int) : Int :=
  if nvIniHasKey ini (lit sectionName) (lit key) then
    nvIniGetBool ini (lit sectionName) (lit key) cur
  else cur

/-- A number. -/
def intSetting (ini : IniFile) (sectionName key : String) (cur : Int) : Int :=
  if nvIniHasKey ini (lit sectionName) (lit key) then
    nvIniGetInt ini (lit sectionName) (lit key) cur
  else cur

/-- A number with a second name that counts when the first is absent. -/
def intSetting₂ (ini : IniFile) (sectionName key key' : String) (cur : Int) : Int :=
  if nvIniHasKey ini (lit sectionName) (lit key) then
    nvIniGetInt ini (lit sectionName) (lit key) cur
  else intSetting ini sectionName key' cur

/-- A 64-bit number. -/
def int64Setting (ini : IniFile) (sectionName key : String) (cur : Int) : Int :=
  if nvIniHasKey ini (lit sectionName) (lit key) then
    nvIniGetInt64 ini (lit sectionName) (lit key) cur
  else cur

/-- `log_level`, a name or a number. -/
def levelSetting (ini : IniFile) (cur : Int) : Int :=
  match nvIniGetString ini (lit "log") (lit "log_level") none with
  | some v => nvCoreParseLogLevel v
  | none => cur

/-- `systemd_notify`, stored as `0` or `1` when the file has the key. -/
def systemdSetting (ini : IniFile) (cur : Int) : Int :=
  if nvIniHasKey ini (lit "daemon") (lit "systemd_notify") then
    if nvIniGetBool ini (lit "daemon") (lit "systemd_notify")
        (if 0 < cur then 1 else 0) ≠ 0 then 1 else 0
  else cur

def rotateKeepSetting (ini : IniFile) (maxMb cur : Int) : Int :=
  let keep := intSetting ini "log" "rotate_keep" cur
  if 0 < maxMb ∧ keep < 1 then 1 else keep

/-- The `[loadlib]` settings, read before the `loadlib` directives. -/
def loadLoadlibSection (ini : IniFile) (o : CoreOpts) : CoreOpts :=
  { o with
    loadlibDir := strSetting₂ ini "loadlib" "plugin_dir" "dir" o.loadlibDir
    loadlibAllowAbsolute := boolSetting ini "loadlib" "allow_absolute" o.loadlibAllowAbsolute }

/-- The other settings of `ctx->opts`. -/
def loadOpts (ini : IniFile) (o : CoreOpts) : CoreOpts :=
  let maxMb := intSetting ini "log" "rotate_max_mb" o.logRotateMaxMb
  { o with
    daemon := boolSetting ini "main" "daemon" o.daemon
    pidFile := strSetting₂ ini "main" "pid_file" "pid" o.pidFile
    logFile := strSetting ini "log" "log_file" o.logFile
    logLevel := levelSetting ini o.logLevel
    useSyslog := boolSetting ini "log" "syslog" o.useSyslog
    workerThreads := intSetting₂ ini "worker" "threads" "worker_threads" o.workerThreads
    workerConnections :=
      intSetting₂ ini "worker" "connections" "worker_connections" o.workerConnections
    workerProcesses := intSetting ini "worker" "processes" o.workerProcesses
    workerRespawn := boolSetting ini "worker" "respawn" o.workerRespawn
    mqName := strSetting ini "ipc" "mq_name" o.mqName
    heartbeatIntervalSec :=
      intSetting ini "daemon" "heartbeat_interval" o.heartbeatIntervalSec
    shutdownTimeoutSec := intSetting ini "daemon" "shutdown_timeout" o.shutdownTimeoutSec
    systemdNotify := systemdSetting ini o.systemdNotify
    maxOpenFiles := intSetting ini "daemon" "max_open_files" o.maxOpenFiles
    coreLimit := int64Setting ini "daemon" "core_limit" o.coreLimit
    ctlSocket := strSetting ini "daemon" "ctl_socket" o.ctlSocket
    pubsubSocket := strSetting ini "ipc" "pubsub_socket" o.pubsubSocket
    instanceLock := strSetting ini "daemon" "instance_lock" o.instanceLock
    telnetEnable := boolSetting ini "cli" "telnet_enable" o.telnetEnable
    telnetPort := intSetting ini "cli" "telnet_port" o.telnetPort
    telnetBind := strSetting ini "cli" "telnet_bind" o.telnetBind
    cliUsername := strSetting ini "cli" "username" o.cliUsername
    cliPassword := strSetting ini "cli" "password" o.cliPassword
    tombstoneFile := strSetting ini "daemon" "tombstone_file" o.tombstoneFile
    watchdogEnable := boolSetting ini "watchdog" "enable" o.watchdogEnable
    watchdogDevice := strSetting ini "watchdog" "device" o.watchdogDevice
    watchdogCmd := strSetting ini "watchdog" "cmd" o.watchdogCmd
    logRotateMaxMb := maxMb
    logRotateKeep := rotateKeepSetting ini maxMb o.logRotateKeep
    metricsPublish := boolSetting ini "metrics" "publish" o.metricsPublish
    metricsTopic := strSetting ini "metrics" "topic" o.metricsTopic }

/-- The log settings, with the options `o` already loaded. -/
def loadLog (ini : IniFile) (o : CoreOpts) (l : LogSettings) : LogSettings :=
  let l :=
    if nvIniHasKey ini (lit "log") (lit "console") then
      nvLogSetConsole l
        (nvIniGetBool ini (lit "log") (lit "console") (nvLogGetConsole l))
    else l
  let l :=
    if nvIniHasKey ini (lit "log") (lit "queue_size") then
      nvLogSetQueueSize l
        (toSize (nvIniGetInt ini (lit "log") (lit "queue_size")
          (toInt (nvLogGetQueueSize l))))
    else l
  let l :=
    match (nvIniGetString ini (lit "log") (lit "overflow") none).bind nvLogOverflowFromString with
    | some policy => { l with overflow := policy }
    | none => l
  if 0 < o.logRotateMaxMb then
    nvLogSetRotate l (toSize o.logRotateMaxMb * 1024 * 1024) o.logRotateKeep
  else l

/-- `ctx->conf`, with the options `o` already loaded. -/
def loadConf (ini : IniFile) (o : CoreOpts) (c : CoreConf) : CoreConf where
  daemon := o.daemon
  workerProcesses := if 0 < o.workerProcesses then o.workerProcesses else o.workerThreads
  workerConnections := o.workerConnections
  pidFile := strSetting₂ ini "main" "pid_file" "pid" c.pidFile
  logFile := strSetting ini "log" "log_file" c.logFile
  logLevel :=
    if (nvIniGetString ini (lit "log") (lit "log_level") none).isSome then o.logLevel
    else c.logLevel

/-- What `nv_core_loadlib_resolve_path` reads of the options. -/
def CoreOpts.loadlib (o : CoreOpts) : LoadlibOpts :=
  ⟨o.loadlibDir, o.loadlibAllowAbsolute⟩

/-- `files` gives the contents of the files that can be opened. -/
def nvCoreLoadConfig (files : CString → Option (List UInt8)) (ctx : CoreCtx) :
    CoreCtx × NvRc :=
  match ctx.opts.configFile with
  | none => (ctx, .error)
  | some path =>
      match files path with
      | none => ({ ctx with ini := none }, .ok)
      | some content =>
          let ini := nvIniLoad content
          let opts := loadLoadlibSection ini ctx.opts
          match nvCoreLoadlibsParseConfig opts.loadlib ctx.loadlibsLoaded ctx.loadlibs
              (files path) with
          | (libs, .error _) =>
              ({ ctx with opts := opts, ini := some ini, loadlibs := libs }, .error)
          | (libs, .ok ()) =>
              let opts := loadOpts ini opts
              ({ ctx with
                  opts := opts
                  conf := loadConf ini opts ctx.conf
                  log := loadLog ini opts ctx.log
                  ini := some ini
                  loadlibs := libs }, .ok)

/-- The field that `nv_core_config_validate` names when it refuses a value. -/
inductive ConfigError where
  /-- "config validate: invalid log_level %d" -/
  | logLevel (v : Int)
  /-- "config validate: worker threads out of range" -/
  | workerThreads
  /-- "config validate: worker connections out of range" -/
  | workerConnections
  /-- "config validate: worker processes out of range" -/
  | workerProcesses
  /-- "config validate: shutdown_timeout out of range" -/
  | shutdownTimeout
  /-- "config validate: heartbeat_interval out of range" -/
  | heartbeatInterval
  /-- "config validate: telnet_port out of range" -/
  | telnetPort
  /-- "config validate: max_open_files invalid" -/
  | maxOpenFiles
deriving DecidableEq

/-- `if (v < lo || v > hi)` with its error. -/
def checkRange (v lo hi : Int) (e : ConfigError) : Except ConfigError Unit :=
  if v < lo ∨ hi < v then .error e else .ok ()

def nvCoreConfigValidate (o : CoreOpts) : Except ConfigError Unit := do
  checkRange o.logLevel 0 6 (.logLevel o.logLevel)
  checkRange o.workerThreads 1 256 .workerThreads
  checkRange o.workerConnections 8 65536 .workerConnections
  checkRange o.workerProcesses 0 128 .workerProcesses
  checkRange o.shutdownTimeoutSec 0 3600 .shutdownTimeout
  checkRange o.heartbeatIntervalSec 0 86400 .heartbeatInterval
  checkRange o.telnetPort 1 65535 .telnetPort
  if o.maxOpenFiles < 0 then .error .maxOpenFiles else .ok ()

theorem defaultOpts_valid : nvCoreConfigValidate defaultOpts = .ok () := rfl

/-- `nv_core_opts_snapshot_t`. -/
structure OptsSnapshot where
  logLevel : Int
  workerThreads : Int
  workerConnections : Int
  workerProcesses : Int
  heartbeatIntervalSec : Int
  shutdownTimeoutSec : Int
  useSyslog : Int
  console : Int

def nvCoreOptsSnapshotSave (ctx : CoreCtx) : OptsSnapshot where
  logLevel := ctx.opts.logLevel
  workerThreads := ctx.opts.workerThreads
  workerConnections := ctx.opts.workerConnections
  workerProcesses := ctx.opts.workerProcesses
  heartbeatIntervalSec := ctx.opts.heartbeatIntervalSec
  shutdownTimeoutSec := ctx.opts.shutdownTimeoutSec
  useSyslog := ctx.opts.useSyslog
  console := nvLogGetConsole ctx.log

def nvCoreOptsSnapshotRestore (ctx : CoreCtx) (snap : OptsSnapshot) : CoreCtx :=
  { ctx with
    opts := { ctx.opts with
      logLevel := snap.logLevel
      workerThreads := snap.workerThreads
      workerConnections := snap.workerConnections
      workerProcesses := snap.workerProcesses
      heartbeatIntervalSec := snap.heartbeatIntervalSec
      shutdownTimeoutSec := snap.shutdownTimeoutSec
      useSyslog := snap.useSyslog }
    conf := { ctx.conf with
      logLevel := snap.logLevel
      workerProcesses := snap.workerThreads
      workerConnections := snap.workerConnections }
    log := nvLogSetConsole (nvLogSetLevel ctx.log snap.logLevel) snap.console }

def nvCoreReloadConfig (files : CString → Option (List UInt8)) (ctx : CoreCtx) :
    CoreCtx × NvRc :=
  let snap := nvCoreOptsSnapshotSave ctx
  match nvCoreLoadConfig files ctx with
  | (ctx, .ok) =>
      match nvCoreConfigValidate ctx.opts with
      | .ok () => (ctx, .ok)
      | .error _ => (nvCoreOptsSnapshotRestore ctx snap, .error)
  | (ctx, _) => (nvCoreOptsSnapshotRestore ctx snap, .error)

end Libnv.Core
