import Libnv.Core.PidFile
import Libnv.Lib.Lifecycle

/-!
# Modules over a run of the program

Registration, initialisation and cleanup of modules (`src/base/core/nv_base.c`)
in a run of `nv_core_run`.  `nv_base_init` stops at the first module that fails
and keeps no record of how far it got.  Every way out of `nv_core_run` that goes
through `nv_core_shutdown` calls `nv_base_cleanup`, which cleans up the whole
table, whether `nv_base_init` was reached or not.
-/

namespace Libnv.Modules

open Instance Lifecycle

universe u

section Functions

def nvModuleMax : Nat := 6

/-- The functions of a module: what `init` returns unless it is NULL, and whether there is a `cleanup`. -/
structure NvModule where
  /-- `some ok` for a function, with `ok` when it returns `NV_OK`. -/
  init : Option Bool
  cleanup : Bool
deriving DecidableEq, Repr

def NvModule.succeeds (m : NvModule) : Bool :=
  m.init == some true

def NvModule.fails (m : NvModule) : Bool :=
  m.init == some false

variable {M : Type u}

/-- The table `g_modules`; `none` is `NV_ERROR`. -/
def nvBaseRegisterModule (table : List M) (module? : Option M) : Option (List M) :=
  match module? with
  | none => none
  | some m => if nvModuleMax ≤ table.length then none else some (table ++ [m])

/-- The calls of `nv_base_register_module` before `nv_core_run`; one that fails changes nothing. -/
def registerAll (ms : List M) : List M :=
  ms.foldl (fun table m => (nvBaseRegisterModule table (some m)).getD table) []

/-- What the modules see of a run. -/
inductive ModuleEvent (M : Type u) where
  | init (m : M) (ok : Bool)
  | cleanup (m : M)
deriving DecidableEq

variable (module : M → NvModule)

/-- `nv_base_init` from a place of the table on: its calls, and whether it returns `NV_OK`. -/
def nvBaseInit : List M → List (ModuleEvent M) × Bool
  | [] => ([], true)
  | m :: ms =>
      match (module m).init with
      | none => nvBaseInit ms
      | some true => (.init m true :: (nvBaseInit ms).1, (nvBaseInit ms).2)
      | some false => ([.init m false], false)

/-- Its calls, and the table afterwards. -/
def nvBaseCleanup (table : List M) : List (ModuleEvent M) × List M :=
  ((table.reverse.filter fun m => (module m).cleanup).map .cleanup, [])

/-- `ok` says which of its steps before `nv_base_init` succeed. -/
def nvCoreStartupInit (ok : StartupStep → Bool) (table : List M) : List (ModuleEvent M) × Bool :=
  if !ok .loadConfig then ([], false)
  else if !ok .validate then ([], false)
  else if !ok .daemon then ([], false)
  else if !ok .logInit then ([], false)
  else if !ok .instanceLock then ([], false)
  else if !ok .pidfile then ([], false)
  else if !ok .loadlibs then ([], false)
  else nvBaseInit module table

/-- How `nv_core_run` goes on after a successful `nv_core_startup_init`. -/
inductive RunEnd where
  /-- `nv_core_workers_launch` returned `NV_DECLINED` or an error. -/
  | launch
  /-- The business initialisation failed. -/
  | business
  /-- The loop ended, and the program exits. -/
  | exit
  /-- The loop ended, and the program is executed again. -/
  | restart
  /-- A fatal signal ended the process in `nv_core_handle_fatal`. -/
  | fatal
deriving DecidableEq

/-- Every end but the fatal signal goes through `nv_core_shutdown`. -/
def RunEnd.shutsDown : RunEnd → Bool
  | .launch | .business | .exit | .restart => true
  | .fatal => false

/-- `nv_core_run`, for the calls of module functions; `args` is false when the arguments are refused. -/
def nvCoreRun (args : Bool) (ok : StartupStep → Bool) (runEnd : RunEnd) (table : List M) :
    List (ModuleEvent M) :=
  if !args then []
  else
    let (events, started) := nvCoreStartupInit module ok table
    if started && !runEnd.shutsDown then events
    else events ++ (nvBaseCleanup module table).1

end Functions

section Pairing

variable {M : Type u}

/-- A successful `init` starts a module, and `cleanup` stops it. -/
def ModuleEvent.lifecycle? : ModuleEvent M → Option (Event M)
  | .init m true => some (.start m)
  | .init _ false => none
  | .cleanup m => some (.stop m)

/-- The successful initialisations and the cleanups of a run. -/
def lifecycle (events : List (ModuleEvent M)) : List (Event M) :=
  events.filterMap ModuleEvent.lifecycle?

/-- `nv_core_startup_init` gets as far as `nv_base_init`. -/
def reachesBaseInit (ok : StartupStep → Bool) : Bool :=
  ok .loadConfig && ok .validate && ok .daemon && ok .logInit && ok .instanceLock &&
    ok .pidfile && ok .loadlibs

variable (module : M → NvModule)

/-- The modules before the first one whose `init` fails. -/
def beforeFailure (table : List M) : List M :=
  table.takeWhile fun m => !(module m).fails

/-- Startup gets to `nv_base_init`, and no `init` fails. -/
def startupSucceeds (ok : StartupStep → Bool) (table : List M) : Bool :=
  reachesBaseInit ok && table.all fun m => !(module m).fails

/-- The run of `nv_core_run` includes `nv_core_shutdown`. -/
def shutsDown (args : Bool) (ok : StartupStep → Bool) (runEnd : RunEnd) (table : List M) : Bool :=
  args && !(startupSucceeds module ok table && !runEnd.shutsDown)

/--
No module with a `cleanup` is registered twice, and for every one of them startup
gets to `nv_base_init`, it has an `init` that succeeds, and no module before it fails.
-/
structure CleanupCovered (ok : StartupStep → Bool) (table : List M) : Prop where
  once : (table.filter fun m => (module m).cleanup).Nodup
  covered : ∀ m ∈ table, (module m).cleanup = true →
    reachesBaseInit ok = true ∧ (module m).succeeds = true ∧ m ∈ beforeFailure module table

def initialised (ok : StartupStep → Bool) (table : List M) : List M :=
  if reachesBaseInit ok then
    (beforeFailure module table).filter fun m => (module m).succeeds
  else []

end Pairing

section Traces

variable {M : Type u} (module : M → NvModule)

theorem registerAll_eq {ms : List M} (hms : ms.length ≤ nvModuleMax) : registerAll ms = ms := by
  have hfold : ∀ (ms table : List M), table.length + ms.length ≤ nvModuleMax →
      ms.foldl (fun table m => (nvBaseRegisterModule table (some m)).getD table) table =
        table ++ ms := by
    intro ms
    induction ms with
    | nil => simp
    | cons m ms ih =>
        intro table hlength
        rw [List.length_cons] at hlength
        have hroom : nvBaseRegisterModule table (some m) = some (table ++ [m]) :=
          if_neg (by omega)
        have hlonger : (table ++ [m]).length + ms.length ≤ nvModuleMax := by
          rw [List.length_append, List.length_singleton]
          omega
        rw [List.foldl_cons, hroom, Option.getD_some, ih _ hlonger, List.append_assoc,
          List.singleton_append]
  exact hfold ms [] (by simpa using hms)

theorem nvBaseInit_spec (table : List M) :
    lifecycle (nvBaseInit module table).1 =
        ((beforeFailure module table).filter fun m => (module m).succeeds).map .start ∧
      (nvBaseInit module table).2 = table.all fun m => !(module m).fails := by
  induction table with
  | nil => exact ⟨rfl, rfl⟩
  | cons m ms ih =>
      obtain ⟨hevents, hok⟩ := ih
      unfold nvBaseInit
      cases hinit : (module m).init with
      | none =>
          have hfails : (module m).fails = false := by simp [NvModule.fails, hinit]
          have hsucceeds : (module m).succeeds = false := by simp [NvModule.succeeds, hinit]
          simp [beforeFailure, hfails, hsucceeds, hok, hevents]
      | some ok =>
          cases ok with
          | false =>
              have hfails : (module m).fails = true := by simp [NvModule.fails, hinit]
              simp [beforeFailure, hfails, lifecycle, ModuleEvent.lifecycle?]
          | true =>
              have hfails : (module m).fails = false := by simp [NvModule.fails, hinit]
              have hsucceeds : (module m).succeeds = true := by simp [NvModule.succeeds, hinit]
              simp only [lifecycle] at hevents ⊢
              simp [beforeFailure, hfails, hsucceeds, hok, hevents, ModuleEvent.lifecycle?]

theorem nvBaseCleanup_lifecycle (table : List M) :
    lifecycle (nvBaseCleanup module table).1 =
      (table.filter fun m => (module m).cleanup).reverse.map .stop := by
  rw [List.filter_reverse.symm]
  simp [lifecycle, nvBaseCleanup, List.filterMap_map, Function.comp_def, ModuleEvent.lifecycle?]

theorem nvCoreStartupInit_eq (ok : StartupStep → Bool) (table : List M) :
    nvCoreStartupInit module ok table =
      if reachesBaseInit ok then nvBaseInit module table else ([], false) := by
  unfold nvCoreStartupInit reachesBaseInit
  cases ok .loadConfig <;> cases ok .validate <;> cases ok .daemon <;> cases ok .logInit <;>
    cases ok .instanceLock <;> cases ok .pidfile <;> cases ok .loadlibs <;> rfl

theorem nvCoreStartupInit_spec (ok : StartupStep → Bool) (table : List M) :
    lifecycle (nvCoreStartupInit module ok table).1 = (initialised module ok table).map .start ∧
      (nvCoreStartupInit module ok table).2 = startupSucceeds module ok table := by
  obtain ⟨hevents, hok⟩ := nvBaseInit_spec module table
  rw [nvCoreStartupInit_eq]
  unfold initialised startupSucceeds
  cases reachesBaseInit ok with
  | true => exact ⟨hevents, hok⟩
  | false => exact ⟨rfl, rfl⟩

/-- The modules that a run cleans up, in order. -/
def cleanedUp (args : Bool) (ok : StartupStep → Bool) (runEnd : RunEnd) (table : List M) : List M :=
  if shutsDown module args ok runEnd table then
    (table.filter fun m => (module m).cleanup).reverse
  else []

theorem nvCoreRun_lifecycle
    (args : Bool) (ok : StartupStep → Bool) (runEnd : RunEnd) (table : List M) :
    lifecycle (nvCoreRun module args ok runEnd table) =
      (if args then initialised module ok table else []).map .start ++
        (cleanedUp module args ok runEnd table).map .stop := by
  obtain ⟨hevents, hok⟩ := nvCoreStartupInit_spec module ok table
  have happend : ∀ xs ys : List (ModuleEvent M), lifecycle (xs ++ ys) = lifecycle xs ++ lifecycle ys :=
    fun xs ys => List.filterMap_append
  unfold nvCoreRun cleanedUp shutsDown
  cases args with
  | false => rfl
  | true =>
      simp only [Bool.not_true, Bool.false_eq_true, if_false, if_true, hok, Bool.true_and]
      cases startupSucceeds module ok table && !runEnd.shutsDown with
      | true => simpa using hevents
      | false => simp [happend, hevents, nvBaseCleanup_lifecycle]

end Traces

section Coverage

variable {M : Type u} {module : M → NvModule}

theorem filter_sublist_initialised
    {table : List M} (honce : (table.filter fun m => (module m).cleanup).Nodup)
    (hcovered : ∀ m ∈ table, (module m).cleanup = true →
      (module m).succeeds = true ∧ m ∈ beforeFailure module table) :
    (table.filter fun m => (module m).cleanup).Sublist
      ((beforeFailure module table).filter fun m => (module m).succeeds) := by
  induction table with
  | nil => exact List.Sublist.slnil
  | cons m ms ih =>
      cases hfails : (module m).fails with
      | true =>
          have hnone : (m :: ms).filter (fun m => (module m).cleanup) = [] := by
            refine List.filter_eq_nil_iff.mpr fun m' hm' hcleanup => ?_
            simpa [beforeFailure, hfails] using (hcovered m' hm' hcleanup).2
          rw [hnone]
          exact List.nil_sublist _
      | false =>
          have hbefore : beforeFailure module (m :: ms) = m :: beforeFailure module ms := by
            simp [beforeFailure, hfails]
          have hrest : ∀ m' ∈ ms, (module m').cleanup = true →
              (module m').succeeds = true ∧ m' ∈ beforeFailure module ms := by
            intro m' hm' hcleanup
            obtain ⟨hsucceeds, hmem⟩ := hcovered m' (List.mem_cons_of_mem m hm') hcleanup
            rw [hbefore] at hmem
            rcases List.mem_cons.mp hmem with rfl | hmem
            · -- The module would be registered twice.
              rw [List.filter_cons_of_pos (by simpa using hcleanup)] at honce
              exact absurd (List.mem_filter.mpr ⟨hm', hcleanup⟩) (List.nodup_cons.mp honce).1
            · exact ⟨hsucceeds, hmem⟩
          have honce' : (ms.filter fun m => (module m).cleanup).Nodup :=
            honce.sublist ((List.sublist_cons_self m ms).filter _)
          have hsub := ih honce' hrest
          rw [hbefore]
          cases hcleanup : (module m).cleanup with
          | true =>
              have hsucceeds := (hcovered m List.mem_cons_self hcleanup).1
              rw [List.filter_cons_of_pos (by simpa using hcleanup),
                List.filter_cons_of_pos (by simpa using hsucceeds)]
              exact hsub.cons_cons m
          | false =>
              rw [List.filter_cons_of_neg (by simpa using hcleanup)]
              exact hsub.trans ((List.sublist_cons_self m _).filter _)

theorem cleanupCovered_iff (ok : StartupStep → Bool) (table : List M) :
    CleanupCovered module ok table ↔
      (table.filter fun m => (module m).cleanup).reverse.Nodup ∧
        (table.filter fun m => (module m).cleanup).reverse.Sublist
          (initialised module ok table).reverse := by
  rw [List.nodup_reverse, List.reverse_sublist]
  constructor
  · rintro ⟨honce, hcovered⟩
    refine ⟨honce, ?_⟩
    unfold initialised
    split_ifs with hreach
    · exact filter_sublist_initialised honce fun m hm hcleanup => (hcovered m hm hcleanup).2
    · refine List.sublist_nil.mpr (List.filter_eq_nil_iff.mpr fun m hm hcleanup => ?_)
      exact hreach (hcovered m hm hcleanup).1
  · rintro ⟨honce, hsub⟩
    refine ⟨honce, fun m hm hcleanup => ?_⟩
    have hmem := hsub.subset (List.mem_filter.mpr ⟨hm, hcleanup⟩)
    unfold initialised at hmem
    split_ifs at hmem with hreach
    · obtain ⟨hbefore, hsucceeds⟩ := List.mem_filter.mp hmem
      exact ⟨hreach, hsucceeds, hbefore⟩
    · cases hmem

/--
For all modules, all outcomes of their `init` functions and of the steps of
startup, and all ways in which `nv_core_run` can end: cleanups pair with successful
initialisations exactly when the run does not reach `nv_core_shutdown` or every
module with a `cleanup` has been initialised successfully and registered once.
-/
theorem nvBaseCleanup_paired_iff
    (module : M → NvModule)
    {ms : List M}
    (hms : ms.length ≤ nvModuleMax)
    (args : Bool)
    (ok : StartupStep → Bool)
    (runEnd : RunEnd) :
    Paired (lifecycle (nvCoreRun module args ok runEnd (registerAll ms))) ↔
      shutsDown module args ok runEnd ms = false ∨ CleanupCovered module ok ms := by
  rw [registerAll_eq hms, nvCoreRun_lifecycle, paired_phases_iff]
  unfold cleanedUp
  cases hshut : shutsDown module args ok runEnd ms with
  | false => simp
  | true =>
      have hargs : args = true := by
        unfold shutsDown at hshut
        exact (Bool.and_eq_true_iff.mp hshut).1
      simp only [hargs, if_true, Bool.true_eq_false, false_or]
      exact (cleanupCovered_iff ok ms).symm

/-- Two modules that are initialised are cleaned up in the reverse order. -/
theorem nvBaseCleanup_paired_two_modules :
    let module : Fin 2 → NvModule := fun _ => { init := some true, cleanup := true }
    nvCoreRun module true (fun _ => true) .exit (registerAll [0, 1]) =
        [.init 0 true, .init 1 true, .cleanup 1, .cleanup 0] ∧
      Paired (lifecycle (nvCoreRun module true (fun _ => true) .exit (registerAll [0, 1]))) := by
  intro module
  have hcovered : CleanupCovered module (fun _ => true) [0, 1] := ⟨by decide, by decide⟩
  exact ⟨by decide, (nvBaseCleanup_paired_iff module (by decide) true _ .exit).mpr (Or.inr hcovered)⟩

/-- When the configuration cannot be loaded, a module is cleaned up that was never initialised. -/
theorem nvBaseCleanup_without_init :
    let module : Unit → NvModule := fun _ => { init := some true, cleanup := true }
    let events := nvCoreRun module true (fun step => step ≠ .loadConfig) .exit (registerAll [()])
    events = [.cleanup ()] ∧ ¬ Paired (lifecycle events) := by
  refine ⟨by decide, fun hpaired => ?_⟩
  have hstarted := hpaired.only [] () [] (by decide)
  cases hstarted

end Coverage

end Libnv.Modules
