import Libnv.Core.Config
import Libnv.Lib.CInteger

/-!
# Numbers of the configuration file

`nv_core_load_config` converts the text of a number with `strtol`, which stops at
the first byte that does not belong to a number, and casts the `long` to an `int`;
`nv_core_config_validate` then sees the result only.  A text that is no number, or
a number that does not fit, may so become a value that passes.
-/

namespace Libnv.Core

open CText Ini

/-- A number that the file may set, with the range that `nv_core_config_validate` checks. -/
structure NumberSetting where
  sectionName : String
  key : String
  /-- The second name, which counts when the file does not have the first. -/
  key' : Option String
  field : CoreOpts → Int
  lo : Int
  hi : Int

/-- The numbers, of which `max_open_files` has no upper bound but that of `int`. -/
def numberSettings : List NumberSetting :=
  [⟨"worker", "threads", some "worker_threads", CoreOpts.workerThreads, 1, 256⟩,
    ⟨"worker", "connections", some "worker_connections", CoreOpts.workerConnections, 8, 65536⟩,
    ⟨"worker", "processes", none, CoreOpts.workerProcesses, 0, 128⟩,
    ⟨"daemon", "heartbeat_interval", none, CoreOpts.heartbeatIntervalSec, 0, 86400⟩,
    ⟨"daemon", "shutdown_timeout", none, CoreOpts.shutdownTimeoutSec, 0, 3600⟩,
    ⟨"cli", "telnet_port", none, CoreOpts.telnetPort, 1, 65535⟩,
    ⟨"daemon", "max_open_files", none, CoreOpts.maxOpenFiles, 0, 2 ^ 31 - 1⟩]

def NumberSetting.text (s : NumberSetting) (ini : IniFile) : Option CString :=
  (nvIniGetString ini (lit s.sectionName) (lit s.key) none).or
    (s.key'.bind fun key => nvIniGetString ini (lit s.sectionName) (lit key) none)

/-- The numbers of the options are those that the file has, where it has any. -/
def AsWritten (ini : IniFile) (o : CoreOpts) : Prop :=
  ∀ s ∈ numberSettings, ∀ text, s.text ini = some text → literal text.bytes = some (s.field o)

/-- The texts that the file has for numbers are integers in their ranges. -/
def WritesNumbers (ini : IniFile) : Prop :=
  ∀ s ∈ numberSettings, ∀ text, s.text ini = some text →
    ∃ n, literal text.bytes = some n ∧ s.lo ≤ n ∧ n ≤ s.hi

instance decidableAsWritten (ini : IniFile) (o : CoreOpts) : Decidable (AsWritten ini o) :=
  decidable_of_iff
    (∀ s ∈ numberSettings, ∀ text ∈ s.text ini, literal text.bytes = some (s.field o)) Iff.rfl

instance decidableWritesNumbers (ini : IniFile) : Decidable (WritesNumbers ini) :=
  decidable_of_iff
    (∀ s ∈ numberSettings, ∀ text ∈ s.text ini, ∃ n ∈ literal text.bytes, s.lo ≤ n ∧ n ≤ s.hi)
    Iff.rfl

section Load

variable (ini : IniFile) (sectionName key key' : String) (cur : Int)

/-- What `nv_ini_get_int` makes of a text. -/
def stored (text : CString) : Int := toInt (strtol text).1

theorem intSetting_eq :
    intSetting ini sectionName key cur =
      ((nvIniGetString ini (lit sectionName) (lit key) none).map stored).getD cur := by
  unfold intSetting nvIniHasKey nvIniGetInt nvIniGetString
  rw [Option.getD_some]
  cases nvIniFind ini (lit sectionName) (lit key) <;> rfl

theorem intSetting₂_eq :
    intSetting₂ ini sectionName key key' cur =
      (((nvIniGetString ini (lit sectionName) (lit key) none).or
        (nvIniGetString ini (lit sectionName) (lit key') none)).map stored).getD cur := by
  unfold intSetting₂
  rw [intSetting_eq]
  unfold nvIniHasKey nvIniGetInt nvIniGetString
  rw [Option.getD_some]
  cases nvIniFind ini (lit sectionName) (lit key) <;> rfl

/-- A number is stored as `nv_ini_get_int` reads its text. -/
theorem NumberSetting.field_loadOpts (o : CoreOpts) :
    ∀ s ∈ numberSettings,
      s.field (loadOpts ini o) = ((s.text ini).map stored).getD (s.field o) := by
  have hone : ∀ sectionName key cur,
      intSetting ini sectionName key cur =
        (((nvIniGetString ini (lit sectionName) (lit key) none).or none).map stored).getD cur := by
    intro sectionName key cur
    rw [Option.or_none, intSetting_eq]
  simp only [numberSettings, List.forall_mem_cons]
  exact ⟨intSetting₂_eq .., intSetting₂_eq .., hone .., hone .., hone .., hone .., hone ..,
    fun _ hnil => absurd hnil List.not_mem_nil⟩

theorem nvCoreLoadConfig_opts {files : CString → Option (List UInt8)} {ctx ctx' : CoreCtx}
    {path : CString} {content : List UInt8} (hpath : ctx.opts.configFile = some path)
    (hfile : files path = some content) (hload : nvCoreLoadConfig files ctx = (ctx', .ok)) :
    ctx'.opts =
      loadOpts (nvIniLoad content) (loadLoadlibSection (nvIniLoad content) ctx.opts) := by
  unfold nvCoreLoadConfig at hload
  simp only [hpath, hfile] at hload
  split at hload
  · cases hload
  · cases hload
    rfl

end Load

section Validate

variable {o : CoreOpts}

theorem checkRange_bind_ok {v lo hi : Int} {e : ConfigError} {rest : Except ConfigError Unit} :
    (checkRange v lo hi e >>= fun _ => rest) = .ok () ↔ (lo ≤ v ∧ v ≤ hi) ∧ rest = .ok () := by
  unfold checkRange
  split_ifs with hout
  · constructor
    · intro h
      cases h
    · intro h
      omega
  · have hin : lo ≤ v ∧ v ≤ hi := by omega
    exact (and_iff_right hin).symm

/-- What `nv_core_config_validate` has checked when it returns `NV_OK`. -/
theorem range_of_validate (h : nvCoreConfigValidate o = .ok ()) :
    ∀ s ∈ numberSettings, s.lo ≤ s.field o ∧ (s.field o < 2 ^ 31 → s.field o ≤ s.hi) := by
  unfold nvCoreConfigValidate at h
  simp only [checkRange_bind_ok] at h
  obtain ⟨-, hthreads, hconnections, hprocesses, hshutdown, hheartbeat, hport, hfiles⟩ := h
  have hfiles' : 0 ≤ o.maxOpenFiles := by
    by_contra hneg
    rw [if_pos (Int.not_le.mp hneg)] at hfiles
    cases hfiles
  simp only [numberSettings, List.forall_mem_cons]
  refine ⟨⟨hthreads.1, fun _ => hthreads.2⟩, ⟨hconnections.1, fun _ => hconnections.2⟩,
    ⟨hprocesses.1, fun _ => hprocesses.2⟩, ⟨hheartbeat.1, fun _ => hheartbeat.2⟩,
    ⟨hshutdown.1, fun _ => hshutdown.2⟩, ⟨hport.1, fun _ => hport.2⟩,
    ⟨hfiles', fun hlt => ?_⟩, fun _ hnil => absurd hnil List.not_mem_nil⟩
  exact Int.le_sub_one_of_lt hlt

theorem int_of_range : ∀ s ∈ numberSettings, -2 ^ 31 ≤ s.lo ∧ s.hi < 2 ^ 31 := by
  simp only [numberSettings, List.forall_mem_cons]
  decide

theorem stored_lt (text : CString) : stored text < 2 ^ 31 := by
  have hlt := Int.bmod_lt (x := (strtol text).1) (m := 2 ^ 32) (by decide)
  unfold stored toInt
  omega

end Validate

/--
For every configuration file that is loaded and then passes the validation: the
numbers that the file has are in `ctx->opts` as they are written exactly if each of
their texts is an integer, as a whole and in the range of its field.
-/
theorem nvCoreConfigValidate_asWritten_iff
    (files : CString → Option (List UInt8))
    (ctx ctx' : CoreCtx)
    (path : CString)
    (content : List UInt8)
    (hpath : ctx.opts.configFile = some path)
    (hfile : files path = some content)
    (hload : nvCoreLoadConfig files ctx = (ctx', .ok))
    (hvalid : nvCoreConfigValidate ctx'.opts = .ok ()) :
    AsWritten (nvIniLoad content) ctx'.opts ↔ WritesNumbers (nvIniLoad content) := by
  have hfield : ∀ s ∈ numberSettings, ∀ text, s.text (nvIniLoad content) = some text →
      s.field ctx'.opts = stored text := by
    intro s hs text htext
    rw [nvCoreLoadConfig_opts hpath hfile hload, NumberSetting.field_loadOpts _ _ s hs, htext]
    rfl
  constructor
  · intro hwritten s hs text htext
    obtain ⟨hlo, hhi⟩ := range_of_validate hvalid s hs
    refine ⟨s.field ctx'.opts, hwritten s hs text htext, hlo, hhi ?_⟩
    rw [hfield s hs text htext]
    exact stored_lt text
  · intro hwrites s hs text htext
    obtain ⟨n, hn, hlo, hhi⟩ := hwrites s hs text htext
    obtain ⟨hmin, hmax⟩ := int_of_range s hs
    have hstored : stored text = n := by
      rw [stored, strtol_of_literal hn]
      exact toInt_saturate (Int.le_trans hmin hlo) (Int.lt_of_le_of_lt hhi hmax)
    rw [hn, hfield s hs text htext, hstored]

/-- The default path, with the given contents. -/
def configFile (content : List UInt8) (path : CString) : Option (List UInt8) :=
  if path = lit "/etc/nv/nv.conf" then some content else none

def plainNumber : List UInt8 := (lit "[cli]\ntelnet_port=0x1F90\n").bytes

theorem plainNumber_asWritten :
    AsWritten (nvIniLoad plainNumber)
      (nvCoreLoadConfig (configFile plainNumber) nvCoreSetDefaults).1.opts := by
  obtain ⟨hload, hvalid, hwrites⟩ :
      (nvCoreLoadConfig (configFile plainNumber) nvCoreSetDefaults).2 = .ok ∧
        nvCoreConfigValidate (nvCoreLoadConfig (configFile plainNumber) nvCoreSetDefaults).1.opts =
          .ok () ∧
        WritesNumbers (nvIniLoad plainNumber) := by
    decide +kernel
  exact (nvCoreConfigValidate_asWritten_iff (configFile plainNumber) nvCoreSetDefaults _
    (lit "/etc/nv/nv.conf") plainNumber rfl (if_pos rfl) (Prod.ext rfl hload) hvalid).mpr hwrites

/-- A file with numbers that do not fit, or are none. -/
def oddNumbers : List UInt8 :=
  (lit "[worker]\nthreads=4294967297\nconnections=9k\nprocesses=x\n").bytes

/-- The file passes, with 1 thread, 9 connections and no worker processes. -/
theorem oddNumbers_pass :
    (nvCoreLoadConfig (configFile oddNumbers) nvCoreSetDefaults).2 = .ok ∧
      nvCoreConfigValidate (nvCoreLoadConfig (configFile oddNumbers) nvCoreSetDefaults).1.opts =
        .ok () ∧
      numberSettings.map (fun s =>
        s.field (nvCoreLoadConfig (configFile oddNumbers) nvCoreSetDefaults).1.opts) =
        [1, 9, 0, 60, 30, 2323, 0] ∧
      ¬ AsWritten (nvIniLoad oddNumbers)
        (nvCoreLoadConfig (configFile oddNumbers) nvCoreSetDefaults).1.opts := by
  decide +kernel

end Libnv.Core
