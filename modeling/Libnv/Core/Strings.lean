import Mathlib.Data.List.Nodup
import Libnv.Core.Config
import Libnv.Lib.Resources

/-!
# Owners of the configuration strings

`nv_core_cfg_set_str` copies a setting into a `*_dup` slot of the context, and
`nv_core_load_config` lets the fields of `ctx->opts` and `ctx->conf` point to the
copy.  `nv_core_shutdown` frees the strings of all slots and sets nine of them to
`NULL`; the other five are left with the address of a freed string, and the guard
against a second call is reset at the end.

`Core.Config` models the fields by their contents.  Here a field is a pointer, and
`Represents` says that its contents are those of `Core.Config`.  A string is named
by the call of `strdup` that returned it.
-/

namespace Libnv.Core

open CText Ini Resources Transition

/-- The `*_dup` slots of `nv_core_ctx_t`. -/
inductive DupSlot where
  | pidFile
  | logFile
  | mqName
  | ctlSocket
  | pubsubSocket
  | instanceLock
  | telnetBind
  | cliUsername
  | cliPassword
  | loadlibDir
  | tombstoneFile
  | watchdogDevice
  | watchdogCmd
  | metricsTopic
deriving DecidableEq

namespace DupSlot

/-- What the file gives for the slot. -/
def setting (ini : IniFile) : DupSlot → Option CString
  | .pidFile => strSetting₂ ini "main" "pid_file" "pid" none
  | .logFile => strSetting ini "log" "log_file" none
  | .mqName => strSetting ini "ipc" "mq_name" none
  | .ctlSocket => strSetting ini "daemon" "ctl_socket" none
  | .pubsubSocket => strSetting ini "ipc" "pubsub_socket" none
  | .instanceLock => strSetting ini "daemon" "instance_lock" none
  | .telnetBind => strSetting ini "cli" "telnet_bind" none
  | .cliUsername => strSetting ini "cli" "username" none
  | .cliPassword => strSetting ini "cli" "password" none
  | .loadlibDir => strSetting₂ ini "loadlib" "plugin_dir" "dir" none
  | .tombstoneFile => strSetting ini "daemon" "tombstone_file" none
  | .watchdogDevice => strSetting ini "watchdog" "device" none
  | .watchdogCmd => strSetting ini "watchdog" "cmd" none
  | .metricsTopic => strSetting ini "metrics" "topic" none

/-- The field of `ctx->opts` that is set from the slot. -/
def field (o : CoreOpts) : DupSlot → Option CString
  | .pidFile => o.pidFile
  | .logFile => o.logFile
  | .mqName => o.mqName
  | .ctlSocket => o.ctlSocket
  | .pubsubSocket => o.pubsubSocket
  | .instanceLock => o.instanceLock
  | .telnetBind => o.telnetBind
  | .cliUsername => o.cliUsername
  | .cliPassword => o.cliPassword
  | .loadlibDir => o.loadlibDir
  | .tombstoneFile => o.tombstoneFile
  | .watchdogDevice => o.watchdogDevice
  | .watchdogCmd => o.watchdogCmd
  | .metricsTopic => o.metricsTopic

/-- The slots that `nv_core_load_config` sets after the `loadlib` directives, in its order. -/
def loaded : List DupSlot :=
  [.pidFile, .logFile, .mqName, .ctlSocket, .pubsubSocket, .instanceLock, .telnetBind,
    .cliUsername, .cliPassword, .tombstoneFile, .watchdogDevice, .watchdogCmd, .metricsTopic]

/-- The slots in the order in which `nv_core_shutdown` frees them. -/
def freed : List DupSlot :=
  [.pidFile, .logFile, .mqName, .ctlSocket, .pubsubSocket, .instanceLock, .telnetBind,
    .cliUsername, .cliPassword, .loadlibDir, .tombstoneFile, .watchdogDevice, .watchdogCmd,
    .metricsTopic]

/-- The slots that `nv_core_shutdown` sets to `NULL`. -/
def cleared : List DupSlot :=
  [.pidFile, .logFile, .mqName, .ctlSocket, .pubsubSocket, .instanceLock, .telnetBind,
    .cliUsername, .cliPassword]

end DupSlot

/-- `nv_core_phase_t`. -/
inductive CorePhase where
  | none
  | startup
  | business
  | loop
  | shutdown
  | exception
deriving DecidableEq

/-- A string field of `ctx->opts` or `ctx->conf`. -/
inductive StrField where
  /-- A default, or a string of the command line. -/
  | other (text : Option CString)
  /-- The pointer that a slot held, `none` for `NULL`. -/
  | dup (p : Option Nat)
deriving DecidableEq

/-- The slots, the string fields and the strings that `strdup` has returned. -/
structure ConfigStrings where
  configFile : Option CString
  loadlibAllowAbsolute : Int
  phase : CorePhase
  slot : DupSlot → Option Nat
  opts : DupSlot → StrField
  confPidFile : StrField
  confLogFile : StrField
  text : Nat → CString
  strings : List (Resource Nat)

namespace ConfigStrings

def contents (s : ConfigStrings) : StrField → Option CString
  | .other text => text
  | .dup p => p.map s.text

end ConfigStrings

section Functions

variable (s : ConfigStrings)

/-- `free(*slot)`, which does nothing with `NULL`. -/
def freeSlot (slot : DupSlot) : List (Resource Nat) :=
  match s.slot slot with
  | none => s.strings
  | some p => release p s.strings

/-- `nv_core_cfg_set_str` with a value; `dup` says whether `strdup` succeeds. -/
def nvCoreCfgSetStr (slot : DupSlot) (val : CString) (dup : Bool) : ConfigStrings :=
  if dup then
    { s with
      slot := Function.update s.slot slot (some (freeSlot s slot).length)
      text := Function.update s.text (freeSlot s slot).length val
      strings := acquire (freeSlot s slot).length (freeSlot s slot) }
  else { s with slot := Function.update s.slot slot none, strings := freeSlot s slot }

/-- The fields that are set from the slot take its pointer. -/
def takeSlot (slot : DupSlot) : ConfigStrings :=
  { s with
    opts := Function.update s.opts slot (.dup (s.slot slot))
    confPidFile := if slot = .pidFile then .dup (s.slot slot) else s.confPidFile
    confLogFile := if slot = .logFile then .dup (s.slot slot) else s.confLogFile }

/-- One string setting of `nv_core_load_config`. -/
def loadString (ini : IniFile) (dup : DupSlot → Bool) (slot : DupSlot) : ConfigStrings :=
  match slot.setting ini with
  | none => s
  | some val => takeSlot (nvCoreCfgSetStr s slot val (dup slot)) slot

/-- What a call of `nv_core_load_config` meets. -/
structure LoadEnv where
  files : CString → Option (List UInt8)
  /-- `ctx->loadlibs_loaded`. -/
  loadlibsLoaded : Bool
  /-- Whether `strdup` succeeds. -/
  dup : DupSlot → Bool

/-- The `[loadlib]` settings, read before the `loadlib` directives. -/
def loadLoadlibStrings (ini : IniFile) (dup : DupSlot → Bool) : ConfigStrings :=
  { loadString s ini dup .loadlibDir with
    loadlibAllowAbsolute := boolSetting ini "loadlib" "allow_absolute" s.loadlibAllowAbsolute }

def loadStrings (ini : IniFile) (dup : DupSlot → Bool) (slots : List DupSlot) : ConfigStrings :=
  slots.foldl (fun s slot => loadString s ini dup slot) s

/-- What `nv_core_loadlib_resolve_path` reads of the options. -/
def ConfigStrings.loadlib : LoadlibOpts :=
  ⟨s.contents (s.opts .loadlibDir), s.loadlibAllowAbsolute⟩

/-- `nv_core_load_config`, on the strings. -/
def nvCoreLoadStrings (env : LoadEnv) : ConfigStrings :=
  match s.configFile with
  | none => s
  | some path =>
      match env.files path with
      | none => s
      | some content =>
          let ini := nvIniLoad content
          let s := loadLoadlibStrings s ini env.dup
          match (nvCoreLoadlibsParseConfig s.loadlib env.loadlibsLoaded []
              (some content)).2 with
          | .error _ => s
          | .ok () => loadStrings s ini env.dup DupSlot.loaded

/-- `nv_core_reload_config`, on the strings: the snapshot holds none of them. -/
def nvCoreReloadStrings (env : LoadEnv) : ConfigStrings :=
  nvCoreLoadStrings s env

/-- `nv_core_shutdown`, on the strings; `free` does nothing with `NULL`. -/
def nvCoreShutdown : ConfigStrings :=
  if s.phase = .shutdown then s
  else
    { s with
      strings := (DupSlot.freed.filterMap s.slot).foldl (fun rs p => release p rs) s.strings
      slot := fun slot => if slot ∈ DupSlot.cleared then none else s.slot slot
      phase := .none }

/-- The calls that read the configuration. -/
inductive LoadCall where
  | load (env : LoadEnv)
  | reload (env : LoadEnv)

inductive StringCall where
  | config (call : LoadCall)
  | shutdown

/-- One call. -/
def stringStep : StringCall → ConfigStrings
  | .config (.load env) => nvCoreLoadStrings s env
  | .config (.reload env) => nvCoreReloadStrings s env
  | .shutdown => nvCoreShutdown s

/-- The strings after `nv_core_set_defaults` and `nv_core_parse_args`. -/
def stringsInit (ctx : CoreCtx) : ConfigStrings where
  configFile := ctx.opts.configFile
  loadlibAllowAbsolute := ctx.opts.loadlibAllowAbsolute
  phase := .none
  slot := fun _ => none
  opts := fun slot => .other (slot.field ctx.opts)
  confPidFile := .other ctx.conf.pidFile
  confLogFile := .other ctx.conf.logFile
  text := fun _ => CString.empty
  strings := []

end Functions

/-- A field that was set from a slot points to the string that the slot owns. -/
def StrField.From (s : ConfigStrings) (slot : DupSlot) (field : StrField) : Prop :=
  ∀ p, field = .dup p → p = s.slot slot ∧ ∀ q, p = some q → Live q s.strings

/-- All fields that were set from slots do so. -/
structure FieldsOwned (s : ConfigStrings) : Prop where
  opts : ∀ slot, (s.opts slot).From s slot
  confPidFile : s.confPidFile.From s .pidFile
  confLogFile : s.confLogFile.From s .logFile

/--
No string is freed twice; the fields refer to the strings of their slots until
`nv_core_shutdown`, and after it every slot is `NULL`.
-/
def StringsSound (s : ConfigStrings) (a : StringCall) : Prop :=
  OnceReleased (stringStep s a).strings ∧
    match a with
    | .config _ => FieldsOwned (stringStep s a)
    | .shutdown => ∀ slot, (stringStep s a).slot slot = none

/-- The slots that `nv_core_shutdown` frees and does not set to `NULL` are `NULL`. -/
def ForgottenNull (s : ConfigStrings) : Prop :=
  ∀ slot ∉ DupSlot.cleared, s.slot slot = none

section Ownership

variable {field : StrField} {p : Option Nat} {slot : DupSlot}

/-- Every slot is `NULL` or owns a live string of its own, and no shutdown is going on. -/
structure OwnInv (s : ConfigStrings) : Prop where
  phase : s.phase ≠ .shutdown
  tidy : Tidy s.strings
  live : ∀ slot p, s.slot slot = some p → Live p s.strings
  own : ∀ slot slot' p, s.slot slot = some p → s.slot slot' = some p → slot = slot'
  opts : ∀ slot p, s.opts slot = .dup p → p = s.slot slot
  confPidFile : ∀ p, s.confPidFile = .dup p → p = s.slot .pidFile
  confLogFile : ∀ p, s.confLogFile = .dup p → p = s.slot .logFile

variable {s : ConfigStrings}

theorem OwnInv.from (h : OwnInv s) (hfield : ∀ p, field = .dup p → p = s.slot slot) :
    field.From s slot := by
  intro p hp
  have hslot := hfield p hp
  exact ⟨hslot, fun q hq => h.live slot q (hslot.symm.trans hq)⟩

theorem OwnInv.fieldsOwned (h : OwnInv s) : FieldsOwned s where
  opts slot := h.from (h.opts slot)
  confPidFile := h.from h.confPidFile
  confLogFile := h.from h.confLogFile

theorem OwnInv.tidy_freeSlot (h : OwnInv s) (slot : DupSlot) : Tidy (freeSlot s slot) := by
  unfold freeSlot
  split
  · exact h.tidy
  · next p hp => exact h.tidy.release (h.live slot p hp)

theorem OwnInv.live_freeSlot (h : OwnInv s) {other : DupSlot} (hne : other ≠ slot) {p : Nat}
    (hp : s.slot other = some p) : Live p (freeSlot s slot) := by
  have hlive := h.live other p hp
  unfold freeSlot
  split
  · exact hlive
  · next q hq =>
      refine (live_release_iff h.tidy.well).mpr ⟨hlive, ?_⟩
      rintro rfl
      exact hne (h.own other slot p hp hq)

/-- The slot with its new string, if there is one. -/
structure SetStr (s s' : ConfigStrings) (slot : DupSlot) : Prop where
  tidy : Tidy s'.strings
  others : ∀ other, other ≠ slot → s'.slot other = s.slot other
  live : ∀ other p, s'.slot other = some p → Live p s'.strings
  own : ∀ other p, other ≠ slot → s'.slot other = some p → s'.slot slot ≠ some p

/-- What the other slots have is not touched. -/
theorem OwnInv.setStr_of_eq (h : OwnInv s) {s' : ConfigStrings}
    (hslot : s'.slot = Function.update s.slot slot p) (htidy : Tidy s'.strings)
    (hkept : ∀ q, Live q (freeSlot s slot) → Live q s'.strings)
    (hnew : ∀ q, p = some q → Live q s'.strings ∧ ¬ Live q (freeSlot s slot)) :
    SetStr s s' slot := by
  have hself : s'.slot slot = p := by
    rw [hslot, Function.update_self]
  have hothers : ∀ other, other ≠ slot → s'.slot other = s.slot other := by
    intro other hne
    rw [hslot, Function.update_of_ne hne]
  refine ⟨htidy, hothers, ?_, ?_⟩
  · intro other q hq
    by_cases hother : other = slot
    · rw [hother, hself] at hq
      exact (hnew q hq).1
    · rw [hothers other hother] at hq
      exact hkept q (h.live_freeSlot hother hq)
  · intro other q hne hq hq'
    rw [hothers other hne] at hq
    rw [hself] at hq'
    exact (hnew q hq').2 (h.live_freeSlot hne hq)

theorem OwnInv.cfgSetStr (h : OwnInv s) (slot : DupSlot) (val : CString) (dup : Bool) :
    SetStr s (nvCoreCfgSetStr s slot val dup) slot := by
  have htidy := h.tidy_freeSlot slot
  cases dup with
  | true =>
      refine h.setStr_of_eq rfl htidy.acquire ?_ ?_
      · exact fun q hq => live_acquire_iff.mpr (Or.inr hq)
      · intro q hq
        obtain rfl := Option.some.inj hq
        refine ⟨live_acquire_iff.mpr (Or.inl rfl), fun hlive => ?_⟩
        exact Nat.lt_irrefl _ (htidy.lt_of_live hlive)
  | false =>
      refine h.setStr_of_eq rfl htidy (fun q hq => hq) ?_
      exact fun q hq => absurd hq.symm (Option.some_ne_none q)

theorem cfgSetStr_fields (s : ConfigStrings) (slot : DupSlot) (val : CString) (dup : Bool) :
    (nvCoreCfgSetStr s slot val dup).phase = s.phase ∧
      (nvCoreCfgSetStr s slot val dup).opts = s.opts ∧
      (nvCoreCfgSetStr s slot val dup).confPidFile = s.confPidFile ∧
      (nvCoreCfgSetStr s slot val dup).confLogFile = s.confLogFile := by
  unfold nvCoreCfgSetStr
  cases dup with
  | true | false => exact ⟨rfl, rfl, rfl, rfl⟩

theorem conf_takeSlot {home : DupSlot}
    (hset : (if slot = home then StrField.dup (s.slot slot) else field) = .dup p)
    (hkept : slot ≠ home → field = .dup p → p = s.slot home) : p = s.slot home := by
  split_ifs at hset with hslot
  · rw [← hslot]
    exact (StrField.dup.inj hset).symm
  · exact hkept hslot hset

theorem OwnInv.loadString (h : OwnInv s) (ini : IniFile) (dup : DupSlot → Bool) (slot : DupSlot) :
    OwnInv (loadString s ini dup slot) := by
  cases hsetting : slot.setting ini with
  | none =>
      have heq : Core.loadString s ini dup slot = s := by
        rw [Core.loadString, hsetting]
      rwa [heq]
  | some val =>
      have heq : Core.loadString s ini dup slot =
          takeSlot (nvCoreCfgSetStr s slot val (dup slot)) slot := by
        rw [Core.loadString, hsetting]
      rw [heq]
      have hset := h.cfgSetStr slot val (dup slot)
      obtain ⟨hphase, hopts, hpid, hlog⟩ := cfgSetStr_fields s slot val (dup slot)
      refine ⟨?_, hset.tidy, hset.live, ?_, ?_, ?_, ?_⟩
      · exact fun hshutdown => h.phase (hphase.symm.trans hshutdown)
      · intro other other' p hp hp'
        by_contra hne
        by_cases hother : other = slot
        · have hne' : other' ≠ slot := fun heq => hne (hother.trans heq.symm)
          exact hset.own other' p hne' hp' (hother ▸ hp)
        · by_cases hother' : other' = slot
          · exact hset.own other p hother hp (hother' ▸ hp')
          · have hp : s.slot other = some p := hset.others other hother ▸ hp
            have hp' : s.slot other' = some p := hset.others other' hother' ▸ hp'
            exact hne (h.own other other' p hp hp')
      · intro other p hp
        simp only [takeSlot, hopts] at hp ⊢
        by_cases hother : other = slot
        · rw [hother, Function.update_self] at hp
          rw [hother]
          exact (StrField.dup.inj hp).symm
        · rw [Function.update_of_ne hother] at hp
          rw [hset.others other hother]
          exact h.opts other p hp
      · intro p hp
        refine conf_takeSlot hp fun hne hfield => ?_
        have hslot := hset.others .pidFile hne.symm
        exact (h.confPidFile p (hpid ▸ hfield)).trans hslot.symm
      · intro p hp
        refine conf_takeSlot hp fun hne hfield => ?_
        have hslot := hset.others .logFile hne.symm
        exact (h.confLogFile p (hlog ▸ hfield)).trans hslot.symm

theorem OwnInv.loadLoadlibStrings (h : OwnInv s) (ini : IniFile) (dup : DupSlot → Bool) :
    OwnInv (loadLoadlibStrings s ini dup) := by
  have hdir := h.loadString ini dup .loadlibDir
  exact ⟨hdir.phase, hdir.tidy, hdir.live, hdir.own, hdir.opts, hdir.confPidFile,
    hdir.confLogFile⟩

theorem OwnInv.load (h : OwnInv s) (env : LoadEnv) : OwnInv (nvCoreLoadStrings s env) := by
  unfold nvCoreLoadStrings
  split
  · exact h
  · split
    · exact h
    · next content _ =>
        have hfirst := h.loadLoadlibStrings (nvIniLoad content) env.dup
        dsimp only
        split
        · exact hfirst
        · exact List.foldlRecOn _ _ hfirst fun s h slot _ => h.loadString _ _ slot

theorem OwnInv.config (h : OwnInv s) (call : LoadCall) : OwnInv (stringStep s (.config call)) := by
  cases call with
  | load env => exact h.load env
  | reload env => exact h.load env

theorem stringsInit_inv (ctx : CoreCtx) : OwnInv (stringsInit ctx) where
  phase := by simp [stringsInit]
  tidy := tidy_nil
  live := by simp [stringsInit]
  own := by simp [stringsInit]
  opts := by simp [stringsInit]
  confPidFile := by simp [stringsInit]
  confLogFile := by simp [stringsInit]

end Ownership

section Shutdown

variable {s : ConfigStrings}

theorem OwnInv.shutdown_eq (h : OwnInv s) :
    nvCoreShutdown s =
      { s with
        strings := (DupSlot.freed.filterMap s.slot).foldl (fun rs p => release p rs) s.strings
        slot := fun slot => if slot ∈ DupSlot.cleared then none else s.slot slot
        phase := .none } :=
  if_neg h.phase

theorem OwnInv.shutdown_once (h : OwnInv s) : OnceReleased (nvCoreShutdown s).strings := by
  rw [h.shutdown_eq]
  have hdistinct : (DupSlot.freed.filterMap s.slot).Nodup :=
    List.Nodup.filterMap (fun slot slot' p hp hp' => h.own slot slot' p hp hp') (by decide)
  refine (h.tidy.releaseAll ?_ hdistinct).once
  intro p hp
  obtain ⟨slot, -, hslot⟩ := List.mem_filterMap.mp hp
  exact h.live slot p hslot

/-- It leaves exactly the strings of the five slots behind. -/
theorem OwnInv.shutdown_null_iff (h : OwnInv s) :
    (∀ slot, (nvCoreShutdown s).slot slot = none) ↔ ForgottenNull s := by
  rw [h.shutdown_eq]
  refine forall_congr' fun slot => ?_
  dsimp only
  by_cases hslot : slot ∈ DupSlot.cleared
  · simp [hslot]
  · simp [hslot]

theorem OwnInv.stringsSound_shutdown_iff (h : OwnInv s) :
    StringsSound s .shutdown ↔ ForgottenNull s :=
  (and_iff_right h.shutdown_once).trans h.shutdown_null_iff

/-- All slots are `NULL`. -/
structure NullInv (s : ConfigStrings) : Prop where
  once : OnceReleased s.strings
  null : ∀ slot, s.slot slot = none

theorem NullInv.shutdown (h : NullInv s) : NullInv (nvCoreShutdown s) := by
  have hnothing : DupSlot.freed.filterMap s.slot = [] :=
    List.filterMap_eq_nil_iff.mpr fun slot _ => h.null slot
  unfold nvCoreShutdown
  split_ifs
  · exact h
  · refine ⟨?_, fun slot => ?_⟩
    · rw [hnothing]
      exact h.once
    · dsimp only
      rw [h.null slot, ite_self]

theorem NullInv.shutdowns (h : NullInv s) (n : Nat) :
    Along stringStep StringsSound s (List.replicate n .shutdown) := by
  induction n generalizing s with
  | zero => trivial
  | succ n ih => exact ⟨⟨h.shutdown.once, h.shutdown.null⟩, ih h.shutdown⟩

/-- From the first shutdown on, everything depends on the five slots. -/
theorem OwnInv.shutdowns_iff (h : OwnInv s) (n : Nat) :
    Along stringStep StringsSound s (List.replicate (n + 1) .shutdown) ↔ ForgottenNull s := by
  constructor
  · exact fun hsound => h.stringsSound_shutdown_iff.mp hsound.1
  · intro hforgotten
    have hnull : NullInv (nvCoreShutdown s) :=
      ⟨h.shutdown_once, h.shutdown_null_iff.mpr hforgotten⟩
    exact ⟨h.stringsSound_shutdown_iff.mpr hforgotten, hnull.shutdowns n⟩

/-- Loads and reloads are sound from every state of the invariant. -/
theorem OwnInv.configs (h : OwnInv s) (loads : List LoadCall) :
    OwnInv (run stringStep s (loads.map .config)) ∧
      Along stringStep StringsSound s (loads.map .config) := by
  induction loads generalizing s with
  | nil => exact ⟨h, trivial⟩
  | cons call loads ih =>
      have hcall := h.config call
      exact ⟨(ih hcall).1, ⟨hcall.tidy.once, hcall.fieldsOwned⟩, (ih hcall).2⟩

end Shutdown

section Contents

variable {s : ConfigStrings} {ctx : CoreCtx} {dup : DupSlot → Bool}
variable {env : LoadEnv} {loads : List LoadCall}

/-- The fields have the contents that the model of `Core.Config` gives them. -/
structure Represents (s : ConfigStrings) (o : CoreOpts) (c : CoreConf) : Prop where
  configFile : s.configFile = o.configFile
  loadlibAllowAbsolute : s.loadlibAllowAbsolute = o.loadlibAllowAbsolute
  opts : ∀ slot, s.contents (s.opts slot) = slot.field o
  confPidFile : s.contents s.confPidFile = c.pidFile
  confLogFile : s.contents s.confLogFile = c.logFile

theorem stringsInit_represents (ctx : CoreCtx) :
    Represents (stringsInit ctx) ctx.opts ctx.conf where
  configFile := rfl
  loadlibAllowAbsolute := rfl
  opts _ := rfl
  confPidFile := rfl
  confLogFile := rfl

/-- A string field that is set from the slot `home` and from nowhere else. -/
structure FieldOf (get : ConfigStrings → StrField) (home : DupSlot) : Prop where
  set : ∀ s slot val dup, get (nvCoreCfgSetStr s slot val dup) = get s
  take : ∀ s slot, get (takeSlot s slot) = if slot = home then .dup (s.slot slot) else get s
  owned : ∀ s, OwnInv s → ∀ p, get s = .dup p → p = s.slot home

theorem fieldOf_opts (home : DupSlot) : FieldOf (fun s => s.opts home) home where
  set s slot val dup := congrFun (cfgSetStr_fields s slot val dup).2.1 home
  take s slot := by
    by_cases hslot : slot = home
    · subst hslot
      simp [takeSlot]
    · simp [takeSlot, hslot, Function.update_of_ne (Ne.symm hslot)]
  owned _ h := h.opts home

theorem fieldOf_confPidFile : FieldOf ConfigStrings.confPidFile .pidFile where
  set s slot val dup := (cfgSetStr_fields s slot val dup).2.2.1
  take _ _ := rfl
  owned _ h := h.confPidFile

theorem fieldOf_confLogFile : FieldOf ConfigStrings.confLogFile .logFile where
  set s slot val dup := (cfgSetStr_fields s slot val dup).2.2.2
  take _ _ := rfl
  owned _ h := h.confLogFile

variable {get : ConfigStrings → StrField} {home : DupSlot}

theorem FieldOf.loadString (hget : FieldOf get home) (h : OwnInv s) (ini : IniFile)
    (hdup : ∀ slot, dup slot = true) (slot : DupSlot) :
    (Core.loadString s ini dup slot).contents (get (Core.loadString s ini dup slot)) =
      if slot = home then (slot.setting ini).or (s.contents (get s)) else s.contents (get s) := by
  cases hsetting : slot.setting ini with
  | none =>
      simp only [Core.loadString, hsetting, Option.none_or, ite_self]
  | some val =>
      simp only [Core.loadString, hsetting, hdup, hget.take, hget.set, Option.some_or]
      split_ifs with hslot
      · simp [takeSlot, ConfigStrings.contents, nvCoreCfgSetStr]
      · -- The string of another slot is live, so its number is below the new one.
        cases hfield : get s with
        | other text => rfl
        | dup p =>
            cases p with
            | none => rfl
            | some q =>
                have hq : s.slot home = some q := (hget.owned s h _ hfield).symm
                have hlive := h.live_freeSlot (Ne.symm hslot) hq
                have hlt := (h.tidy_freeSlot slot).lt_of_live hlive
                exact congrArg some (Function.update_of_ne hlt.ne _ _)

/-- The settings of several slots. -/
theorem FieldOf.loadStrings (hget : FieldOf get home) (h : OwnInv s) (ini : IniFile)
    (hdup : ∀ slot, dup slot = true) {slots : List DupSlot} (hslots : slots.Nodup) :
    (Core.loadStrings s ini dup slots).contents (get (Core.loadStrings s ini dup slots)) =
      if home ∈ slots then (home.setting ini).or (s.contents (get s)) else s.contents (get s) := by
  induction slots generalizing s with
  | nil => rfl
  | cons slot slots ih =>
      obtain ⟨hslot, hslots⟩ := List.nodup_cons.mp hslots
      have hfirst := hget.loadString h ini hdup slot
      have hrest := ih (h.loadString ini dup slot) hslots
      refine hrest.trans ?_
      rw [hfirst]
      by_cases heq : slot = home
      · subst heq
        simp [hslot]
      · simp [heq, Ne.symm heq]

theorem field_loadLoadlibSection (ini : IniFile) (o : CoreOpts) (slot : DupSlot) :
    slot.field (loadLoadlibSection ini o) =
      if DupSlot.loadlibDir = slot then (slot.setting ini).or (slot.field o)
      else slot.field o := by
  cases slot with
  | loadlibDir =>
      simp [DupSlot.field, DupSlot.setting, loadLoadlibSection, strSetting₂, strSetting,
        Option.or_assoc]
  | _ => rfl

theorem field_loadOpts (ini : IniFile) (o : CoreOpts) (slot : DupSlot) :
    slot.field (loadOpts ini o) =
      if slot ∈ DupSlot.loaded then (slot.setting ini).or (slot.field o) else slot.field o := by
  cases slot with
  | pidFile =>
      simp [DupSlot.field, DupSlot.setting, DupSlot.loaded, loadOpts, strSetting₂, strSetting,
        Option.or_assoc]
  | _ => simp [DupSlot.field, DupSlot.setting, DupSlot.loaded, loadOpts, strSetting]

/-- Whether the `loadlib` directives are in order does not depend on the list so far. -/
theorem nvCoreLoadlibsParseConfig_snd
    (o : LoadlibOpts) (loaded : Bool) (libs : List LoadLib) (content : Option (List UInt8)) :
    (nvCoreLoadlibsParseConfig o loaded libs content).2 =
      (nvCoreLoadlibsParseConfig o loaded [] content).2 := by
  unfold nvCoreLoadlibsParseConfig
  split_ifs <;> rfl

theorem loadString_frame
    (s : ConfigStrings) (ini : IniFile) (dup : DupSlot → Bool) (slot : DupSlot) :
    (Core.loadString s ini dup slot).configFile = s.configFile ∧
      (Core.loadString s ini dup slot).loadlibAllowAbsolute = s.loadlibAllowAbsolute := by
  unfold Core.loadString
  split
  · exact ⟨rfl, rfl⟩
  · unfold nvCoreCfgSetStr
    split_ifs <;> exact ⟨rfl, rfl⟩

variable {o : CoreOpts} {c : CoreConf}

theorem Represents.loadLoadlibStrings (hrep : Represents s o c) (h : OwnInv s) (ini : IniFile)
    (hdup : ∀ slot, dup slot = true) :
    Represents (loadLoadlibStrings s ini dup) (loadLoadlibSection ini o) c := by
  have hfile := (loadString_frame s ini dup .loadlibDir).1
  refine ⟨hfile.trans hrep.configFile, ?_, fun slot => ?_, ?_, ?_⟩
  · exact congrArg (boolSetting ini "loadlib" "allow_absolute") hrep.loadlibAllowAbsolute
  · rw [field_loadLoadlibSection, ← hrep.opts slot]
    refine ((fieldOf_opts slot).loadString h ini hdup .loadlibDir).trans ?_
    split_ifs with hslot
    · rw [hslot]
    · rfl
  · exact (fieldOf_confPidFile.loadString h ini hdup .loadlibDir).trans hrep.confPidFile
  · exact (fieldOf_confLogFile.loadString h ini hdup .loadlibDir).trans hrep.confLogFile

theorem loadStrings_frame
    (s : ConfigStrings) (ini : IniFile) (dup : DupSlot → Bool) (slots : List DupSlot) :
    (loadStrings s ini dup slots).configFile = s.configFile ∧
      (loadStrings s ini dup slots).loadlibAllowAbsolute = s.loadlibAllowAbsolute := by
  induction slots generalizing s with
  | nil => exact ⟨rfl, rfl⟩
  | cons slot slots ih =>
      obtain ⟨hfile, habsolute⟩ := loadString_frame s ini dup slot
      obtain ⟨hfile', habsolute'⟩ := ih (loadString s ini dup slot)
      exact ⟨hfile'.trans hfile, habsolute'.trans habsolute⟩

/-- The other settings. -/
theorem Represents.loadStrings (hrep : Represents s o c) (h : OwnInv s) (ini : IniFile)
    (hdup : ∀ slot, dup slot = true) :
    Represents (loadStrings s ini dup DupSlot.loaded) (loadOpts ini o)
      (loadConf ini (loadOpts ini o) c) := by
  have hdistinct : DupSlot.loaded.Nodup := by decide
  obtain ⟨hfile, habsolute⟩ := loadStrings_frame s ini dup DupSlot.loaded
  refine ⟨hfile.trans hrep.configFile, habsolute.trans hrep.loadlibAllowAbsolute, fun slot => ?_,
    ?_, ?_⟩
  · rw [field_loadOpts, ← hrep.opts slot]
    exact (fieldOf_opts slot).loadStrings h ini hdup hdistinct
  · refine (fieldOf_confPidFile.loadStrings h ini hdup hdistinct).trans ?_
    rw [hrep.confPidFile]
    simp [DupSlot.loaded, DupSlot.setting, loadConf, strSetting₂, strSetting, Option.or_assoc]
  · refine (fieldOf_confLogFile.loadStrings h ini hdup hdistinct).trans ?_
    rw [hrep.confLogFile]
    simp [DupSlot.loaded, DupSlot.setting, loadConf, strSetting]

theorem Represents.loadlib (hrep : Represents s o c) : s.loadlib = o.loadlib := by
  rw [ConfigStrings.loadlib, hrep.opts .loadlibDir, hrep.loadlibAllowAbsolute]
  rfl

/--
While `strdup` succeeds, the fields have the contents that `nvCoreLoadConfig` gives
them.
-/
theorem Represents.load (hrep : Represents s ctx.opts ctx.conf) (h : OwnInv s)
    (hloaded : env.loadlibsLoaded = ctx.loadlibsLoaded) (hdup : ∀ slot, env.dup slot = true) :
    Represents (nvCoreLoadStrings s env) (nvCoreLoadConfig env.files ctx).1.opts
      (nvCoreLoadConfig env.files ctx).1.conf := by
  unfold nvCoreLoadStrings nvCoreLoadConfig
  rw [hrep.configFile]
  cases ctx.opts.configFile with
  | none => exact hrep
  | some path =>
      dsimp only
      cases env.files path with
      | none => exact hrep
      | some content =>
          have hfirst := hrep.loadLoadlibStrings h (nvIniLoad content) hdup
          have hinv := h.loadLoadlibStrings (nvIniLoad content) env.dup
          dsimp only
          rw [hfirst.loadlib, hloaded, ← nvCoreLoadlibsParseConfig_snd _ _ ctx.loadlibs]
          cases hparsed : nvCoreLoadlibsParseConfig
              (loadLoadlibSection (nvIniLoad content) ctx.opts).loadlib ctx.loadlibsLoaded
              ctx.loadlibs (some content) with
          | mk libs result =>
              cases result with
              | error e => exact hfirst
              | ok _ => exact hfirst.loadStrings hinv (nvIniLoad content) hdup

/-- The same for `nvCoreReloadConfig`, whose snapshot holds no string. -/
theorem Represents.reload (hrep : Represents s ctx.opts ctx.conf) (h : OwnInv s)
    (hloaded : env.loadlibsLoaded = ctx.loadlibsLoaded) (hdup : ∀ slot, env.dup slot = true) :
    Represents (nvCoreReloadStrings s env) (nvCoreReloadConfig env.files ctx).1.opts
      (nvCoreReloadConfig env.files ctx).1.conf := by
  have hload := hrep.load h hloaded hdup
  have hrestore : ∀ (ctx' : CoreCtx) (snap : OptsSnapshot),
      Represents (nvCoreLoadStrings s env) ctx'.opts ctx'.conf →
      Represents (nvCoreLoadStrings s env) (nvCoreOptsSnapshotRestore ctx' snap).opts
        (nvCoreOptsSnapshotRestore ctx' snap).conf := by
    intro ctx' snap hrep'
    refine ⟨hrep'.configFile, hrep'.loadlibAllowAbsolute, fun slot => ?_, hrep'.confPidFile,
      hrep'.confLogFile⟩
    refine (hrep'.opts slot).trans ?_
    cases slot <;> rfl
  unfold nvCoreReloadStrings nvCoreReloadConfig
  dsimp only
  split
  · next ctx' hctx =>
      rw [hctx] at hload
      split
      · exact hload
      · exact hrestore ctx' _ hload
  · next ctx' _ _ hctx =>
      rw [hctx] at hload
      exact hrestore ctx' _ hload

/-- The same call in the model of `Core.Config`. -/
def configStep (ctx : CoreCtx) : LoadCall → CoreCtx
  | .load env => (nvCoreLoadConfig env.files ctx).1
  | .reload env => (nvCoreReloadConfig env.files ctx).1

/-- Every `strdup` of the call succeeds, and `loadlibs_loaded` has the given value. -/
def LoadCall.Regular (loadlibsLoaded : Bool) : LoadCall → Prop
  | .load env | .reload env =>
      env.loadlibsLoaded = loadlibsLoaded ∧ ∀ slot, env.dup slot = true

theorem loadlibsLoaded_load (files : CString → Option (List UInt8)) (ctx : CoreCtx) :
    (nvCoreLoadConfig files ctx).1.loadlibsLoaded = ctx.loadlibsLoaded := by
  unfold nvCoreLoadConfig
  split
  · rfl
  · split
    · rfl
    · dsimp only
      split <;> rfl

theorem loadlibsLoaded_configStep (ctx : CoreCtx) (call : LoadCall) :
    (configStep ctx call).loadlibsLoaded = ctx.loadlibsLoaded := by
  cases call with
  | load env => exact loadlibsLoaded_load env.files ctx
  | reload env =>
      have hload := loadlibsLoaded_load env.files ctx
      unfold configStep nvCoreReloadConfig
      dsimp only
      split
      · next ctx' hctx =>
          rw [hctx] at hload
          split <;> exact hload
      · next ctx' _ _ hctx =>
          rw [hctx] at hload
          exact hload

theorem Represents.configs (hrep : Represents s ctx.opts ctx.conf) (h : OwnInv s)
    (hloads : ∀ call ∈ loads, call.Regular ctx.loadlibsLoaded) :
    Represents (run stringStep s (loads.map .config)) (run configStep ctx loads).opts
      (run configStep ctx loads).conf := by
  induction loads generalizing s ctx with
  | nil => exact hrep
  | cons call loads ih =>
      obtain ⟨hcall, hrest⟩ := List.forall_mem_cons.mp hloads
      refine ih ?_ (h.config call) ?_
      · cases call with
        | load env => exact hrep.load h hcall.1 hcall.2
        | reload env => exact hrep.reload h hcall.1 hcall.2
      · intro other hother
        rw [loadlibsLoaded_configStep]
        exact hrest other hother

/--
Through every sequence of loads and reloads in which `strdup` succeeds, reading the
fields through their pointers gives the contents that `Core.Config` computes.
-/
theorem nvCore_strings_represent
    (ctx : CoreCtx)
    (hloads : ∀ call ∈ loads, call.Regular ctx.loadlibsLoaded) :
    Represents (run stringStep (stringsInit ctx) (loads.map .config))
      (run configStep ctx loads).opts (run configStep ctx loads).conf :=
  (stringsInit_represents ctx).configs (stringsInit_inv ctx) hloads

end Contents

/--
In a sequence of loads and reloads with any files, followed by one or more calls of
`nv_core_shutdown`, no configuration string is freed twice, the fields refer to the
strings of their slots until the first shutdown and all slots are `NULL` after each,
exactly if the first shutdown finds the slots of `loadlib_dir`, `tombstone_file`,
`watchdog_device`, `watchdog_cmd` and `metrics_topic` at `NULL`.
-/
theorem nvCore_strings_one_owner_iff
    (ctx : CoreCtx)
    (loads : List LoadCall)
    (n : Nat) :
    Along stringStep StringsSound (stringsInit ctx)
        (loads.map .config ++ List.replicate (n + 1) .shutdown) ↔
      ForgottenNull (run stringStep (stringsInit ctx) (loads.map .config)) := by
  obtain ⟨hinv, hloads⟩ := (stringsInit_inv ctx).configs loads
  rw [along_append, and_iff_right hloads]
  exact hinv.shutdowns_iff n

/-- A file that names the plug-in directory. -/
def pluginDirEnv : LoadEnv where
  files := fun _ => some (lit "[loadlib]\nplugin_dir = /opt/nv\n").bytes
  loadlibsLoaded := false
  dup := fun _ => true

/-- The directory is read through `loadlib_dir` as it stands in the file. -/
theorem pluginDir_represented :
    Represents (run stringStep (stringsInit nvCoreSetDefaults) [.config (.load pluginDirEnv)])
      (nvCoreLoadConfig pluginDirEnv.files nvCoreSetDefaults).1.opts
      (nvCoreLoadConfig pluginDirEnv.files nvCoreSetDefaults).1.conf :=
  @nvCore_strings_represent [.load pluginDirEnv] nvCoreSetDefaults
    (List.forall_mem_singleton.mpr ⟨rfl, fun _ => rfl⟩)

/--
The plug-in directory is loaded once: the first shutdown leaves `loadlib_dir_dup`
dangling, and the second frees the string again.
-/
theorem second_shutdown_frees_again :
    let loaded := run stringStep (stringsInit nvCoreSetDefaults) [.config (.load pluginDirEnv)]
    (nvCoreShutdown loaded).slot .loadlibDir = some 0 ∧
      (nvCoreShutdown loaded).strings = [⟨0, 1⟩] ∧
      (nvCoreShutdown (nvCoreShutdown loaded)).strings = [⟨0, 2⟩] ∧
      ¬ Along stringStep StringsSound (stringsInit nvCoreSetDefaults)
        [.config (.load pluginDirEnv), .shutdown, .shutdown] := by
  have hslot : (nvCoreShutdown (run stringStep (stringsInit nvCoreSetDefaults)
      [.config (.load pluginDirEnv)])).slot .loadlibDir = some 0 := by
    decide +kernel
  refine ⟨hslot, by decide +kernel, by decide +kernel, ?_⟩
  rintro ⟨-, ⟨-, hnull⟩, -⟩
  exact absurd (hslot.symm.trans (hnull .loadlibDir)) (Option.some_ne_none 0)

end Libnv.Core
