import Libnv.Cli.Command
import Libnv.Lib.Chains
import Libnv.Lib.Lines

/-!
# The registry of commands

`nv_core_cli_register` and `nv_core_cli_unregister`.  A node keeps the first 31 bytes
of a name, while the registry is searched for the whole name: a command with a longer
name is found by nothing.

The registry is a chain whose keys are the names without regard to case.  What it
stands for is kept beside it: the handler that was registered under every name and
not unregistered since.
-/

namespace Libnv.Cli

open CText Chains Transition Libnv.Core

/-- `nv_core_cli_register`, for a definition with a name and a handler. -/
def nvCoreCliRegister (s : CliState) (name help : CString) (handler : CliHandler) :
    CliState × NvRc :=
  nvCliAddNode (nvCoreCliInit s) name help handler

def nvCoreCliUnregister (s : CliState) (name : CString) : CliState × NvRc :=
  if s.cmds.any fun n => equalIgnoreCase n.name name then
    ({ s with cmds := s.cmds.eraseP fun n => equalIgnoreCase n.name name }, .ok)
  else (s, .error)

inductive RegistryCall where
  | init
  | register (name help : CString) (handler : CliHandler)
  | unregister (name : CString)

/-- A name without regard to case. -/
def folded (name : CString) : List UInt8 :=
  name.bytes.map toLower

/-- The console, and the handlers that are registered according to the results of the calls. -/
structure Registry where
  cli : CliState
  registered : List UInt8 → Option CliHandler

/-- `nv_cli_add_node`, noting the handler if it is accepted. -/
def Registry.add (r : Registry) (name help : CString) (handler : CliHandler) : Registry where
  cli := (nvCliAddNode r.cli name help handler).1
  registered :=
    if (nvCliAddNode r.cli name help handler).2 = .ok then
      Function.update r.registered (folded name) (some handler)
    else r.registered

/-- `nv_core_cli_init`, noting the built-in commands. -/
def Registry.init (r : Registry) : Registry :=
  if r.cli.inited then r
  else
    builtins.foldl (fun r (name, help, handler) => r.add (lit name) (lit help) handler)
      { r with cli := { r.cli with inited := true } }

/-- One call. -/
def registryStep (r : Registry) : RegistryCall → Registry
  | .init => ⟨nvCoreCliInit r.cli, r.init.registered⟩
  | .register name help handler =>
      ⟨(nvCoreCliRegister r.cli name help handler).1,
        if (nvCoreCliRegister r.cli name help handler).2 = .ok then
          Function.update r.init.registered (folded name) (some handler)
        else r.init.registered⟩
  | .unregister name =>
      ⟨(nvCoreCliUnregister r.cli name).1,
        if (nvCoreCliUnregister r.cli name).2 = .ok then
          Function.update r.registered (folded name) none
        else r.registered⟩

def registryStart (ctx : CoreCtx) (quit interactive : Bool) : Registry where
  cli :=
    { ctx := ctx
      quit := quit
      cmds := []
      interactive := interactive
      inited := false }
  registered := fun _ => none

def FirstWord (line name : CString) : Prop :=
  name.bytes ≠ [] ∧ (∀ b ∈ name.bytes, isSpace b = false) ∧
    ∃ before after, line.bytes = before ++ name.bytes ++ after ∧
      (∀ b ∈ before, isSpace b = true) ∧ ∀ b ∈ after.head?, isSpace b = true

/-- The line has `handler` called with its words, and returns what the handler returns. -/
def Runs (env : CliEnv) (s : CliState) (fd : Int) (line : CString) (interactive : Bool)
    (handler : CliHandler) : Prop :=
  let argv := nvCliSplitArgs (line.bytes.rdropWhile fun b => b = 13 ∨ b = 10) 16
  let result := handler.call env { s with interactive := interactive } argv
  nvCoreCliExecuteLine env s fd line interactive =
    ({ result.1 with interactive := false }, result.2)

/-- The call leaves a map from names to handlers, and answers as the map before it says. -/
structure KeepsMap (r : Registry) (call : RegistryCall) : Prop where
  distinct :
    (registryStep r call).cli.cmds.Pairwise fun a b => equalIgnoreCase a.name b.name = false
  refused : ∀ name help handler, call = .register name help handler →
    ((nvCoreCliRegister r.cli name help handler).2 = .error ↔
      r.init.registered (folded name) ≠ none)
  executed : ∀ name handler, (registryStep r call).registered (folded name) = some handler →
    ∀ env fd line interactive, 0 ≤ fd → line.length ≤ 511 → FirstWord line name →
      Runs env (registryStep r call).cli fd line interactive handler
  unregistered : ∀ name, (registryStep r call).registered (folded name) ≠ none →
    (nvCoreCliUnregister (registryStep r call).cli name).2 = .ok

/-- A name that is not empty and fits into a node. -/
def Fits (name : CString) : Prop :=
  1 ≤ name.length ∧ name.length ≤ 31

def RegistryCall.Fits : RegistryCall → Prop
  | .register name _ _ => Cli.Fits name
  | .init | .unregister _ => True

/-- A command as a node of a chain. -/
def CliCmd.node (cmd : CliCmd) : Node (List UInt8) CliHandler :=
  ⟨folded cmd.name, cmd.handler⟩

theorem equalIgnoreCase_iff {s t : CString} : equalIgnoreCase s t = true ↔ folded s = folded t := by
  simp [equalIgnoreCase, folded]

theorem nvCliFind_handler (cmds : List CliCmd) (name : CString) :
    (nvCliFind cmds name).map CliCmd.handler = find (folded name) (cmds.map CliCmd.node) := by
  unfold nvCliFind
  induction cmds with
  | nil => rfl
  | cons cmd rest ih =>
      rw [List.map_cons, find, List.find?_cons, ← ih]
      by_cases hname : equalIgnoreCase cmd.name name = true
      · rw [hname]
        exact (if_pos (equalIgnoreCase_iff.mp hname)).symm
      · rw [Bool.not_eq_true] at hname
        rw [hname]
        refine (if_neg fun h => ?_).symm
        exact absurd (equalIgnoreCase_iff.mpr h) (by simp [hname])

theorem nvCliFind_isSome (cmds : List CliCmd) (name : CString) :
    (nvCliFind cmds name).isSome = (find (folded name) (cmds.map CliCmd.node)).isSome := by
  rw [← nvCliFind_handler, Option.isSome_map]

theorem any_equalIgnoreCase (cmds : List CliCmd) (name : CString) :
    (cmds.any fun n => equalIgnoreCase n.name name) =
      (find (folded name) (cmds.map CliCmd.node)).isSome := by
  rw [← nvCliFind_isSome, nvCliFind, List.isSome_find?]

theorem map_node_eraseP (cmds : List CliCmd) (name : CString) :
    (cmds.eraseP fun n => equalIgnoreCase n.name name).map CliCmd.node =
      unlink (folded name) (cmds.map CliCmd.node) := by
  rw [unlink, List.eraseP_map]
  congr 2

/-- Names that differ without regard to case. -/
theorem pairwise_iff_nodup_keys (cmds : List CliCmd) :
    (cmds.Pairwise fun a b => equalIgnoreCase a.name b.name = false) ↔
      (keys (cmds.map CliCmd.node)).Nodup := by
  rw [keys, List.map_map, List.Nodup, List.pairwise_map]
  refine List.Pairwise.iff fun {a b} => ?_
  rw [← Bool.not_eq_true, equalIgnoreCase_iff]
  exact Iff.rfl

section Invariant

variable {r : Registry}

/-- The registry stands for the map of what is registered. -/
structure Stands (r : Registry) : Prop where
  nodup : (keys (r.cli.cmds.map CliCmd.node)).Nodup
  registered : ∀ key, r.registered key = find key (r.cli.cmds.map CliCmd.node)
  fits : ∀ cmd ∈ r.cli.cmds, Fits cmd.name

/-- What the calls keep: before `nv_core_cli_init` nothing is registered. -/
structure RegistryInv (r : Registry) : Prop where
  stands : Stands r
  idle : r.cli.inited = false → r.cli.cmds = []

theorem nvCliAddNode_of_fits
    {name : CString} (hname : Fits name) (s : CliState) (help : CString) (handler : CliHandler) :
    nvCliAddNode s name help handler =
      if (find (folded name) (s.cmds.map CliCmd.node)).isSome then (s, .error)
      else ({ s with cmds := ⟨name, help.take 127, handler⟩ :: s.cmds }, .ok) := by
  have hne : name ≠ CString.empty := by
    rintro rfl
    exact absurd hname.1 (by decide)
  rw [nvCliAddNode, if_neg hne, nvCliFind_isSome, CString.take_eq_self hname.2]

theorem nvCliAddNode_inited (s : CliState) (name help : CString) (handler : CliHandler) :
    (nvCliAddNode s name help handler).1.inited = s.inited := by
  unfold nvCliAddNode
  split_ifs <;> rfl

theorem fits_nvCliAddNode {s : CliState} (h : ∀ cmd ∈ s.cmds, Fits cmd.name) (name help : CString)
    (handler : CliHandler) : ∀ cmd ∈ (nvCliAddNode s name help handler).1.cmds, Fits cmd.name := by
  unfold nvCliAddNode
  split_ifs with hempty hfound
  · exact h
  · exact h
  · refine List.forall_mem_cons.mpr ⟨⟨?_, CString.length_take_le name 31⟩, h⟩
    have hpos : 0 < name.length := List.length_pos_iff.mpr fun hnil => hempty (CString.ext hnil)
    simp only [CString.length, CString.take_bytes, List.length_take] at hpos ⊢
    omega

theorem Stands.add
    (h : Stands r) {name : CString} (hname : Fits name) (help : CString) (handler : CliHandler) :
    Stands (r.add name help handler) := by
  have hfits := fits_nvCliAddNode h.fits name help handler
  unfold Registry.add
  rw [nvCliAddNode_of_fits hname] at hfits ⊢
  cases hfound : find (folded name) (r.cli.cmds.map CliCmd.node) with
  | some other => exact h
  | none =>
      rw [hfound] at hfits
      refine ⟨?_, fun key => ?_, hfits⟩
      · exact List.nodup_cons.mpr ⟨find_eq_none_iff.mp hfound, h.nodup⟩
      · simp only [Option.isSome_none, Bool.false_eq_true, if_false, if_true, List.map_cons, find,
          Function.update_apply, CliCmd.node, h.registered key, eq_comm]

theorem fits_builtins : ∀ entry ∈ builtins, Fits (lit entry.1) := by
  have hall : ∀ entry ∈ builtins, 1 ≤ (lit entry.1).length ∧ (lit entry.1).length ≤ 31 := by
    decide
  exact hall

theorem foldl_add_cli (entries : List (String × String × CliHandler)) (r : Registry) :
    (entries.foldl (fun r (name, help, handler) => r.add (lit name) (lit help) handler) r).cli =
      entries.foldl
        (fun s (name, help, handler) =>
          if (nvCliFind s.cmds (lit name)).isSome then s
          else (nvCliAddNode s (lit name) (lit help) handler).1)
        r.cli := by
  induction entries generalizing r with
  | nil => rfl
  | cons entry rest ih =>
      obtain ⟨name, help, handler⟩ := entry
      rw [List.foldl_cons, List.foldl_cons, ih]
      congr 1
      by_cases hfound : (nvCliFind r.cli.cmds (lit name)).isSome = true
      · simp only [Registry.add, nvCliAddNode, hfound, if_true, ite_self]
      · simp only [Registry.add, hfound, Bool.false_eq_true, if_false]

theorem Registry.init_cli (r : Registry) : r.init.cli = nvCoreCliInit r.cli := by
  unfold Registry.init nvCoreCliInit nvCliRegisterBuiltins
  split_ifs
  · rfl
  · exact foldl_add_cli builtins _

theorem foldl_add_stands
    {entries : List (String × String × CliHandler)} (hfits : ∀ entry ∈ entries, Fits (lit entry.1))
    (h : Stands r) :
    Stands (entries.foldl (fun r (name, help, handler) => r.add (lit name) (lit help) handler) r) ∧
      (entries.foldl (fun r (name, help, handler) => r.add (lit name) (lit help) handler)
        r).cli.inited = r.cli.inited := by
  induction entries generalizing r with
  | nil => exact ⟨h, rfl⟩
  | cons entry rest ih =>
      obtain ⟨hentry, hrest⟩ := List.forall_mem_cons.mp hfits
      obtain ⟨hstands, hinited⟩ := ih hrest (h.add hentry (lit entry.2.1) entry.2.2)
      exact ⟨hstands, hinited.trans (nvCliAddNode_inited ..)⟩

theorem RegistryInv.init (h : RegistryInv r) : Stands r.init ∧ r.init.cli.inited = true := by
  unfold Registry.init
  split_ifs with hinited
  · exact ⟨h.stands, hinited⟩
  · refine foldl_add_stands fits_builtins ⟨h.stands.nodup, h.stands.registered, h.stands.fits⟩

theorem RegistryInv.of_inited (h : Stands r) (hinited : r.cli.inited = true) : RegistryInv r where
  stands := h
  idle := fun hidle => absurd (hinited.symm.trans hidle) Bool.noConfusion

theorem nvCoreCliRegister_eq (r : Registry) (name help : CString) (handler : CliHandler) :
    nvCoreCliRegister r.cli name help handler = nvCliAddNode r.init.cli name help handler := by
  rw [Registry.init_cli, nvCoreCliRegister]

theorem registryStep_register (r : Registry) (name help : CString) (handler : CliHandler) :
    registryStep r (.register name help handler) = r.init.add name help handler := by
  rw [registryStep, nvCoreCliRegister_eq, Registry.add]

theorem nvCoreCliUnregister_eq (s : CliState) (name : CString) :
    nvCoreCliUnregister s name =
      if (find (folded name) (s.cmds.map CliCmd.node)).isSome then
        ({ s with cmds := s.cmds.eraseP fun n => equalIgnoreCase n.name name }, .ok)
      else (s, .error) := by
  rw [nvCoreCliUnregister, any_equalIgnoreCase]

theorem RegistryInv.unregister (h : RegistryInv r) (name : CString) :
    RegistryInv (registryStep r (.unregister name)) := by
  rw [registryStep, nvCoreCliUnregister_eq]
  cases hfound : find (folded name) (r.cli.cmds.map CliCmd.node) with
  | none => exact h
  | some handler =>
      simp only [Option.isSome_some, if_true]
      refine ⟨⟨?_, fun key => ?_, fun cmd hcmd => ?_⟩, fun hidle => ?_⟩
      · rw [map_node_eraseP]
        exact nodup_keys_unlink h.stands.nodup (folded name)
      · simp only [map_node_eraseP, find_unlink h.stands.nodup, Function.update_apply,
          h.stands.registered key, eq_comm]
      · exact h.stands.fits cmd (List.mem_of_mem_eraseP hcmd)
      · rw [h.idle hidle] at hfound
        cases hfound

theorem registryInv_step (r : Registry) (call : RegistryCall) (h : RegistryInv r)
    (hfits : call.Fits) : RegistryInv (registryStep r call) := by
  obtain ⟨hstands, hinited⟩ := h.init
  cases call with
  | init =>
      have hstep : registryStep r .init = r.init := by rw [registryStep, ← Registry.init_cli]
      rw [hstep]
      exact .of_inited hstands hinited
  | register name help handler =>
      rw [registryStep_register]
      exact .of_inited (hstands.add hfits help handler) ((nvCliAddNode_inited ..).trans hinited)
  | unregister name => exact h.unregister name

theorem fits_foldl_add
    (entries : List (String × String × CliHandler)) (h : ∀ cmd ∈ r.cli.cmds, Fits cmd.name) :
    ∀ cmd ∈ (entries.foldl (fun r (name, help, handler) => r.add (lit name) (lit help) handler)
      r).cli.cmds, Fits cmd.name := by
  induction entries generalizing r with
  | nil => exact h
  | cons entry rest ih => exact ih (fits_nvCliAddNode h _ _ _)

theorem fits_registryStep
    (r : Registry) (call : RegistryCall) (h : ∀ cmd ∈ r.cli.cmds, Fits cmd.name) :
    ∀ cmd ∈ (registryStep r call).cli.cmds, Fits cmd.name := by
  have hinit : ∀ cmd ∈ r.init.cli.cmds, Fits cmd.name := by
    unfold Registry.init
    split_ifs
    · exact h
    · exact fits_foldl_add builtins h
  cases call with
  | init =>
      rw [registryStep, ← Registry.init_cli]
      exact hinit
  | register name help handler =>
      rw [registryStep_register]
      exact fits_nvCliAddNode hinit name help handler
  | unregister name =>
      have hsubset : (nvCoreCliUnregister r.cli name).1.cmds ⊆ r.cli.cmds := by
        unfold nvCoreCliUnregister
        split_ifs
        · exact List.eraseP_subset
        · exact List.Subset.refl _
      exact fun cmd hcmd => h cmd (hsubset hcmd)

end Invariant

section Execute

variable {line name : CString}

theorem FirstWord.cut (h : FirstWord line name) :
    ∃ before after,
      (line.bytes.rdropWhile fun b => b = 13 ∨ b = 10) = before ++ (name.bytes ++ after) ∧
        (∀ b ∈ before, isSpace b = true) ∧ ∀ b ∈ after.head?, isSpace b = true := by
  obtain ⟨hne, hword, before, after, hline, hbefore, hafter⟩ := h
  obtain ⟨front, last, hlast⟩ := (List.eq_nil_or_concat name.bytes).resolve_left hne
  rw [List.concat_eq_append] at hlast
  let lineEnd : UInt8 → Bool := fun b => b = 13 ∨ b = 10
  have hend : ¬ lineEnd last = true := by
    intro h
    have hspace := hword last (hlast ▸ List.mem_concat_self)
    rcases of_decide_eq_true h with rfl | rfl
    · exact absurd hspace (by decide)
    · exact absurd hspace (by decide)
  refine ⟨before, after.rdropWhile lineEnd, ?_, hbefore, ?_⟩
  · have hsplit : line.bytes = before ++ front ++ last :: after := by
      rw [hline, hlast]
      simp only [List.append_assoc, List.singleton_append]
    rw [hsplit, hlast]
    refine (rdropWhile_append_cons lineEnd hend (before ++ front) after).trans ?_
    simp only [List.append_assoc, List.singleton_append]
  · intro b hb
    obtain ⟨tail, htail⟩ := after.rdropWhile_prefix lineEnd
    refine hafter b ?_
    rw [← htail, List.head?_append, hb]
    rfl

theorem nvCliSplitArgs_of_firstWord (h : FirstWord line name) :
    ∃ args, nvCliSplitArgs (line.bytes.rdropWhile fun b => b = 13 ∨ b = 10) 16 = name :: args := by
  obtain ⟨before, after, hcut, hbefore, hafter⟩ := h.cut
  obtain ⟨hne, hword, -⟩ := h
  obtain ⟨first, others, hname⟩ := List.exists_cons_of_ne_nil hne
  have hfirst : isSpace first = false := hword first (hname ▸ List.mem_cons_self)
  have hdrop : (before ++ (name.bytes ++ after)).dropWhile isSpace = name.bytes ++ after := by
    refine dropWhile_append_of_head isSpace hbefore fun b hb => ?_
    rw [hname] at hb
    cases hb
    exact hfirst
  have htake : (name.bytes ++ after).takeWhile (! isSpace ·) = name.bytes := by
    refine takeWhile_append_of_head _ (fun b hb => ?_) fun b hb => ?_
    · rw [hword b hb]
      rfl
    · rw [hafter b hb]
      rfl
  rw [hcut, nvCliSplitArgs, splitArgsLoop, hdrop, hname, List.cons_append]
  refine ⟨_, congrArg (· :: _) ?_⟩
  rw [← List.cons_append, ← hname, htake]
  exact CString.ofBuffer_bytes name

/-- A line whose first word is found in the registry. -/
theorem runs_of_find {s : CliState} (hinited : s.inited = true) {handler : CliHandler}
    (hfind : find (folded name) (s.cmds.map CliCmd.node) = some handler)
    (env : CliEnv) {fd : Int} (hfd : 0 ≤ fd) (hlen : line.length ≤ 511)
    (hfirst : FirstWord line name) (interactive : Bool) :
    Runs env s fd line interactive handler := by
  rw [← nvCliFind_handler] at hfind
  obtain ⟨cmd, hcmd, rfl⟩ := Option.map_eq_some_iff.mp hfind
  obtain ⟨args, hargs⟩ := nvCliSplitArgs_of_firstWord hfirst
  have hbuf : (line.bytes.rdropWhile fun b => b = 13 ∨ b = 10) ≠ [] := by
    intro hnil
    rw [hnil] at hargs
    cases hargs
  have hinit : nvCoreCliInit s = s := if_pos hinited
  have htake : line.take (lineMax - 1) = line := CString.take_eq_self hlen
  unfold Runs nvCoreCliExecuteLine
  rw [if_neg (not_lt.mpr hfd)]
  simp only [hinit, htake, hbuf, if_false, hargs, hcmd]

end Execute

section Results

variable {r : Registry} {name : CString}

theorem RegistryInv.refused (h : RegistryInv r) (hname : Fits name) (help : CString)
    (handler : CliHandler) :
    (nvCoreCliRegister r.cli name help handler).2 = .error ↔
      r.init.registered (folded name) ≠ none := by
  rw [nvCoreCliRegister_eq, nvCliAddNode_of_fits hname, h.init.1.registered]
  cases find (folded name) (r.init.cli.cmds.map CliCmd.node) with
  | none => simp
  | some other => simp

theorem RegistryInv.keepsMap (h : RegistryInv r) {call : RegistryCall} (hfits : call.Fits) :
    KeepsMap r call := by
  have hnext := registryInv_step r call h hfits
  refine ⟨(pairwise_iff_nodup_keys _).mpr hnext.stands.nodup, ?_, ?_, ?_⟩
  · rintro name help handler rfl
    exact h.refused hfits help handler
  · intro name handler hregistered env fd line interactive hfd hlen hfirst
    rw [hnext.stands.registered] at hregistered
    refine runs_of_find ?_ hregistered env hfd hlen hfirst interactive
    by_contra hinited
    rw [hnext.idle (Bool.not_eq_true _ ▸ hinited)] at hregistered
    cases hregistered
  · intro name hregistered
    rw [hnext.stands.registered, ← Option.isSome_iff_ne_none] at hregistered
    rw [nvCoreCliUnregister_eq, if_pos hregistered]

theorem find_eq_none_of_not_fits {cmds : List CliCmd} (hcmds : ∀ cmd ∈ cmds, Fits cmd.name)
    (hname : ¬ Fits name) : find (folded name) (cmds.map CliCmd.node) = none := by
  rw [find_eq_none_iff]
  intro hmem
  obtain ⟨node, hnode, hkey⟩ := List.mem_map.mp hmem
  obtain ⟨cmd, hcmd, rfl⟩ := List.mem_map.mp hnode
  have hlen : cmd.name.length = name.length := by
    simpa [CliCmd.node, folded, CString.length] using congrArg List.length hkey
  have hfits := hcmds cmd hcmd
  rw [Fits, hlen] at hfits
  exact hname hfits

theorem RegistryInv.not_keepsMap_of_long
    (h : RegistryInv r) (hlong : 31 < name.length) (help : CString) (handler : CliHandler) :
    ¬ KeepsMap r (.register name help handler) := by
  have hne : name ≠ CString.empty := by
    rintro rfl
    exact absurd hlong (by decide)
  have hname : ¬ Fits name := fun hfits => absurd hfits.2 (not_le.mpr hlong)
  have hcmds := h.init.1.fits
  have hadd : nvCliAddNode r.init.cli name help handler =
      ({ r.init.cli with cmds := ⟨name.take 31, help.take 127, handler⟩ :: r.init.cli.cmds },
        .ok) := by
    rw [nvCliAddNode, if_neg hne, nvCliFind_isSome, find_eq_none_of_not_fits hcmds hname]
    rfl
  have hafter := fits_nvCliAddNode hcmds name help handler
  rw [hadd] at hafter
  intro hkeeps
  have hregistered := hkeeps.unregistered name
  rw [registryStep_register, Registry.add, hadd] at hregistered
  have hok := hregistered (by simp)
  rw [nvCoreCliUnregister_eq, find_eq_none_of_not_fits hafter hname] at hok
  cases hok

theorem RegistryInv.not_keepsMap_of_empty
    (h : RegistryInv r) (hempty : name = CString.empty) (help : CString) (handler : CliHandler) :
    ¬ KeepsMap r (.register name help handler) := by
  have hname : ¬ Fits name := by
    rintro ⟨hpos, -⟩
    rw [hempty] at hpos
    exact absurd hpos (by decide)
  intro hkeeps
  have hregistered := (hkeeps.refused name help handler rfl).mp
  rw [nvCoreCliRegister_eq, nvCliAddNode, if_pos hempty, h.init.1.registered] at hregistered
  exact hregistered rfl (find_eq_none_of_not_fits h.init.1.fits hname)

theorem RegistryInv.keepsMap_iff (h : RegistryInv r) (call : RegistryCall) :
    KeepsMap r call ↔ call.Fits := by
  refine ⟨fun hkeeps => ?_, h.keepsMap⟩
  cases call with
  | init => trivial
  | unregister name => trivial
  | register name help handler =>
      by_contra hfits
      rcases Nat.eq_zero_or_pos name.length with hzero | hpos
      · have hempty : name = CString.empty := CString.ext (List.eq_nil_of_length_eq_zero hzero)
        exact h.not_keepsMap_of_empty hempty help handler hkeeps
      · have hlong : 31 < name.length := not_le.mp fun hle => hfits ⟨hpos, hle⟩
        exact h.not_keepsMap_of_long hlong help handler hkeeps

theorem registryInv_start (ctx : CoreCtx) (quit interactive : Bool) :
    RegistryInv (registryStart ctx quit interactive) where
  stands := ⟨List.nodup_nil, fun _ => rfl, fun _ hcmd => absurd hcmd List.not_mem_nil⟩
  idle := fun _ => rfl

end Results

/--
For all calls from the start of the process: every call keeps the registry a map from
names to handlers, and answers as one, exactly if all names that are registered have
1 to 31 bytes.
-/
theorem nvCoreCli_isMap_iff
    (ctx : CoreCtx)
    (quit interactive : Bool)
    (calls : List RegistryCall) :
    Along registryStep KeepsMap (registryStart ctx quit interactive) calls ↔
      ∀ name help handler, .register name help handler ∈ calls →
        1 ≤ name.length ∧ name.length ≤ 31 := by
  rw [along_iff_along_of_inv (registryInv_start ctx quit interactive) registryInv_step
    (fun _ call h => h.keepsMap_iff call) calls, along_iff_forall_mem]
  constructor
  · intro hfits name help handler hmem
    exact hfits _ hmem
  · intro hfits call hcall
    cases call with
    | init => trivial
    | unregister name => trivial
    | register name help handler => exact hfits name help handler hcall

/-- The commands of the console after some calls. -/
def registeredCmds (calls : List RegistryCall) : List CliCmd :=
  (run registryStep (registryStart nvCoreSetDefaults false false) calls).cli.cmds

theorem registeredCmds_fit (calls : List RegistryCall) :
    ∀ cmd ∈ registeredCmds calls, Fits cmd.name := by
  have hstart : ∀ cmd ∈ (registryStart nvCoreSetDefaults false false).cli.cmds, Fits cmd.name :=
    fun _ hcmd => absurd hcmd List.not_mem_nil
  exact run_invariant fits_registryStep hstart calls

def longName : CString :=
  lit "show-interface-statistics-detail"

/--
A command with a name of 32 bytes can be registered twice, is not what a line with its
name calls, and cannot be unregistered.
-/
theorem longName_lost :
    let start := registryStart nvCoreSetDefaults false false
    let calls : List RegistryCall :=
      [.register longName CString.empty (.plugin 0), .register longName CString.empty (.plugin 1)]
    let cli := (run registryStep start calls).cli
    let env : CliEnv := ⟨fun _ => none, fun _ s _ => (s, 7)⟩
    (cli.cmds.take 2).map CliCmd.name = [longName.take 31, longName.take 31] ∧
      (nvCoreCliExecuteLine env cli 0 longName false).2 = NvRc.error.code ∧
      (nvCoreCliUnregister cli longName).2 = .error ∧
      ¬ Along registryStep KeepsMap start calls := by
  refine ⟨by decide +kernel, by decide +kernel, by decide +kernel, fun hkeeps => ?_⟩
  exact (registryInv_start _ _ _).not_keepsMap_of_long (by decide) _ _ hkeeps.1

end Libnv.Cli
