import Mathlib.Algebra.Group.Int.Defs
import Mathlib.Data.Finset.Max
import Libnv.Lib.Transition

/-!
# Waiting with `select`

`src/base/net/nv_socket_select.c`.  The sets of the object say which descriptors are
watched, and after a wait the same sets say which of them are ready.  `select` gets
copies of the sets, but `nv_select_wait` stores the copies back; the timeout is passed
by reference.

`select` is that of Linux: it replaces the sets by their ready parts and the timeout by
the time left, and leaves the sets alone if it fails.  `FD_SET` and `FD_CLR` are defined
for descriptors below `FD_SETSIZE` only, which is `NV_SELECT_MAX_FD`.
-/

namespace Libnv.Select

open Transition

def nvSelectMaxFd : Nat := 1024

/-- What a descriptor is watched for. -/
inductive Kind where
  | read
  | write
  | except
deriving DecidableEq, Repr

/-- `struct timeval`. -/
structure Timeval where
  tvSec : Int
  tvUsec : Int
deriving DecidableEq, Repr

/-- `nv_select_t`; `fds` holds `read_fds`, `write_fds` and `except_fds`. -/
structure NvSelect where
  fds : Kind → Finset Nat
  maxFd : Int
  timeout : Timeval

def nvSelectInit : NvSelect where
  fds := fun _ => ∅
  maxFd := -1
  timeout := ⟨0, 0⟩

/-- The argument of `nv_select_add_fd` for a kind. -/
def asks (read write except : Bool) : Kind → Bool
  | .read => read
  | .write => write
  | .except => except

/-- `FD_SET` for the kinds that are asked for. -/
def addFd (fds : Kind → Finset Nat) (fd : Nat) (asked : Kind → Bool) : Kind → Finset Nat :=
  fun kind => if asked kind then insert fd (fds kind) else fds kind

def nvSelectAddFd (s : NvSelect) (fd : Nat) (read write except : Bool) : NvSelect × Int :=
  if nvSelectMaxFd ≤ fd then (s, -1)
  else
    ({ s with
        fds := addFd s.fds fd (asks read write except)
        maxFd := if s.maxFd < fd then fd else s.maxFd }, 0)

/-- The loop of `nv_select_remove_fd`, from `i - 1` down. -/
def searchDown (fds : Kind → Finset Nat) : Nat → Option Nat
  | 0 => none
  | i + 1 =>
      if i ∈ fds .read ∨ i ∈ fds .write ∨ i ∈ fds .except then some i else searchDown fds i

/-- `FD_CLR` for all kinds. -/
def removeFd (fds : Kind → Finset Nat) (fd : Nat) : Kind → Finset Nat :=
  fun kind => (fds kind).erase fd

def nvSelectRemoveFd (s : NvSelect) (fd : Nat) : NvSelect × Int :=
  let fds := removeFd s.fds fd
  let maxFd :=
    if fd = s.maxFd then
      match searchDown fds fd with
      | some i => (i : Int)
      | none => s.maxFd
    else s.maxFd
  ({ s with fds := fds, maxFd := maxFd }, 0)

def nvSelectSetTimeout (s : NvSelect) (sec usec : Int) : NvSelect × Int :=
  ({ s with timeout := ⟨sec, usec⟩ }, 0)

/-- The arguments of `select`. -/
structure SelectArgs where
  nfds : Int
  fds : Kind → Finset Nat
  timeout : Timeval

/-- How `select` ends. -/
inductive SelectResult where
  | failed (left : Timeval)
  /-- The descriptors that are ready, among others perhaps, and the time left. -/
  | returned (ready : Kind → Finset Nat) (left : Timeval)

/-- The sets and the timeout that it leaves, and its return value. -/
def select (args : SelectArgs) : SelectResult → (Kind → Finset Nat) × Timeval × Int
  | .failed left => (args.fds, left, -1)
  | .returned ready left =>
      let fds := fun kind => args.fds kind ∩ ready kind
      (fds, left, (fds .read).card + (fds .write).card + (fds .except).card)

/-- What `nv_select_wait` passes to `select`. -/
def NvSelect.args (s : NvSelect) : SelectArgs where
  nfds := s.maxFd + 1
  fds := s.fds
  timeout := s.timeout

def nvSelectWait (s : NvSelect) (result : SelectResult) : NvSelect × Int :=
  let (fds, left, retval) := select s.args result
  let s := { s with timeout := left }
  if retval = -1 then (s, -1) else ({ s with fds := fds }, retval)

/-- The calls, with the result of `select` for a wait. -/
inductive SelectCall where
  | add (fd : Fin nvSelectMaxFd) (read write except : Bool)
  | remove (fd : Fin nvSelectMaxFd)
  | setTimeout (sec usec : Int)
  | wait (result : SelectResult)

/-- The object, the descriptors that were added and not removed, and the timeout last set. -/
structure Session where
  obj : NvSelect
  watched : Kind → Finset Nat
  timeout : Timeval

/-- After `nv_select_init`. -/
def sessionStart : Session where
  obj := nvSelectInit
  watched := fun _ => ∅
  timeout := ⟨0, 0⟩

/-- One call. -/
def sessionStep (t : Session) : SelectCall → Session
  | .add fd read write except =>
      { t with
        obj := (nvSelectAddFd t.obj fd read write except).1
        watched := addFd t.watched fd (asks read write except) }
  | .remove fd =>
      { t with
        obj := (nvSelectRemoveFd t.obj fd).1
        watched := removeFd t.watched fd }
  | .setTimeout sec usec =>
      { t with
        obj := (nvSelectSetTimeout t.obj sec usec).1
        timeout := ⟨sec, usec⟩ }
  | .wait result => { t with obj := (nvSelectWait t.obj result).1 }

/-- The descriptors that are watched for anything. -/
def anyKind (fds : Kind → Finset Nat) : Finset Nat :=
  fds .read ∪ fds .write ∪ fds .except

/-- The largest of some descriptors, or -1 if there is none. -/
def largest (fds : Finset Nat) : Int :=
  if h : fds.Nonempty then fds.max' h else -1

/-- The next wait passes what is watched to `select`, with the timeout last set. -/
def WaitsForWatched (t : Session) : Prop :=
  t.obj.args =
    { nfds := largest (anyKind t.watched) + 1
      fds := t.watched
      timeout := t.timeout }

/-- The call leaves no trace in what is watched but its own. -/
def respects (t : Session) : SelectCall → Prop
  | .add fd read write except =>
      (∃ kind, asks read write except kind = true) ∨ ∃ n ∈ anyKind t.watched, fd ≤ n
  | .remove fd => anyKind t.watched ≠ {↑fd}
  | .setTimeout _ _ => True
  | .wait (.failed left) => left = t.timeout
  | .wait (.returned ready left) =>
      (∀ kind, t.watched kind ⊆ ready kind) ∧ left = t.timeout

section Largest

variable {fds : Finset Nat} {n : Nat}

theorem largest_empty : largest ∅ = -1 := rfl

theorem largest_eq_iff : largest fds = n ↔ n ∈ fds ∧ ∀ k ∈ fds, k ≤ n := by
  unfold largest
  split_ifs with hne
  · rw [Int.ofNat_inj, Finset.max'_eq_iff]
  · rw [Finset.not_nonempty_iff_eq_empty] at hne
    subst hne
    refine iff_of_false id ?_
    rintro ⟨hmem, -⟩
    exact absurd hmem (Finset.notMem_empty n)

theorem le_largest_iff : (n : Int) ≤ largest fds ↔ ∃ k ∈ fds, n ≤ k := by
  unfold largest
  split_ifs with hne
  · rw [Int.ofNat_le]
    constructor
    · exact fun hle => ⟨_, fds.max'_mem hne, hle⟩
    · rintro ⟨k, hk, hle⟩
      exact hle.trans (fds.le_max' k hk)
  · rw [Finset.not_nonempty_iff_eq_empty] at hne
    subst hne
    refine iff_of_false (by omega) ?_
    rintro ⟨k, hmem, -⟩
    exact absurd hmem (Finset.notMem_empty k)

theorem largest_insert (n : Nat) (fds : Finset Nat) :
    largest (insert n fds) = if largest fds < n then (n : Int) else largest fds := by
  split_ifs with hlt
  · rw [largest_eq_iff]
    refine ⟨Finset.mem_insert_self n fds, fun k hk => ?_⟩
    rcases Finset.mem_insert.mp hk with rfl | hk
    · exact Nat.le_refl k
    · have hle : (k : Int) ≤ largest fds := le_largest_iff.mpr ⟨k, hk, Nat.le_refl k⟩
      omega
  · obtain ⟨k, hk, hle⟩ := le_largest_iff.mp (not_lt.mp hlt)
    have hne : fds.Nonempty := ⟨k, hk⟩
    obtain ⟨m, hm⟩ : ∃ m : Nat, largest fds = m := ⟨fds.max' hne, dif_pos hne⟩
    obtain ⟨hmem, hmax⟩ := largest_eq_iff.mp hm
    rw [hm, largest_eq_iff]
    refine ⟨Finset.mem_insert_of_mem hmem, fun j hj => ?_⟩
    rcases Finset.mem_insert.mp hj with rfl | hj
    · exact hle.trans (hmax k hk)
    · exact hmax j hj

theorem largest_erase (h : (n : Int) ≠ largest fds) : largest (fds.erase n) = largest fds := by
  by_cases hmem : n ∈ fds
  · have hinsert := largest_insert n (fds.erase n)
    rw [Finset.insert_erase hmem] at hinsert
    split_ifs at hinsert with hlt
    · exact absurd hinsert.symm h
    · exact hinsert.symm
  · rw [Finset.erase_eq_of_notMem hmem]

end Largest

section Search

variable {fds : Kind → Finset Nat} {n : Nat}

theorem mem_anyKind_iff : n ∈ anyKind fds ↔ n ∈ fds .read ∨ n ∈ fds .write ∨ n ∈ fds .except := by
  rw [anyKind, Finset.mem_union, Finset.mem_union, or_assoc]

theorem exists_kind_iff {p : Kind → Prop} : (∃ kind, p kind) ↔ p .read ∨ p .write ∨ p .except := by
  constructor
  · rintro ⟨kind, h⟩
    cases kind with
    | read => exact Or.inl h
    | write => exact Or.inr (Or.inl h)
    | except => exact Or.inr (Or.inr h)
  · rintro (h | h | h)
    · exact ⟨_, h⟩
    · exact ⟨_, h⟩
    · exact ⟨_, h⟩

theorem mem_anyKind : n ∈ anyKind fds ↔ ∃ kind, n ∈ fds kind :=
  mem_anyKind_iff.trans (exists_kind_iff (p := fun kind => n ∈ fds kind)).symm

/-- The loop finds the largest descriptor, if all are below its start. -/
theorem searchDown_eq (h : ∀ k ∈ anyKind fds, k < n) :
    (match searchDown fds n with
      | some i => (i : Int)
      | none => -1) = largest (anyKind fds) := by
  induction n with
  | zero =>
      have hempty : anyKind fds = ∅ :=
        Finset.eq_empty_of_forall_notMem fun k hk => absurd (h k hk) (Nat.not_lt_zero k)
      rw [hempty]
      rfl
  | succ n ih =>
      rw [searchDown]
      split_ifs with hset
      · exact (largest_eq_iff.mpr
          ⟨mem_anyKind_iff.mpr hset, fun k hk => Nat.le_of_lt_succ (h k hk)⟩).symm
      · refine ih fun k hk => Nat.lt_of_le_of_ne (Nat.le_of_lt_succ (h k hk)) ?_
        rintro rfl
        exact hset (mem_anyKind_iff.mp hk)

theorem anyKind_addFd_of_asked (fd : Nat) {asked : Kind → Bool} (h : ∃ kind, asked kind = true) :
    anyKind (addFd fds fd asked) = insert fd (anyKind fds) := by
  ext k
  rw [mem_anyKind, Finset.mem_insert, mem_anyKind]
  constructor
  · rintro ⟨kind, hk⟩
    rw [addFd] at hk
    split_ifs at hk
    · exact (Finset.mem_insert.mp hk).imp_right fun hk => ⟨kind, hk⟩
    · exact Or.inr ⟨kind, hk⟩
  · rintro (rfl | ⟨kind, hk⟩)
    · obtain ⟨kind, hasked⟩ := h
      refine ⟨kind, ?_⟩
      rw [addFd, if_pos hasked]
      exact Finset.mem_insert_self k _
    · refine ⟨kind, ?_⟩
      rw [addFd]
      split_ifs
      · exact Finset.mem_insert_of_mem hk
      · exact hk

theorem addFd_of_not_asked (fd : Nat) {asked : Kind → Bool} (h : ¬ ∃ kind, asked kind = true) :
    addFd fds fd asked = fds := by
  funext kind
  exact if_neg fun hasked => h ⟨kind, hasked⟩

theorem anyKind_removeFd (fds : Kind → Finset Nat) (fd : Nat) :
    anyKind (removeFd fds fd) = (anyKind fds).erase fd := by
  ext k
  simp only [mem_anyKind, removeFd, Finset.mem_erase, exists_and_left]

end Search

section Calls

variable {t : Session}

theorem waitsForWatched_iff :
    WaitsForWatched t ↔
      t.obj.fds = t.watched ∧ t.obj.maxFd = largest (anyKind t.watched) ∧
        t.obj.timeout = t.timeout := by
  rw [WaitsForWatched, NvSelect.args, SelectArgs.mk.injEq, Int.add_left_inj]
  tauto

theorem WaitsForWatched.add_iff
    (h : WaitsForWatched t) (fd : Fin nvSelectMaxFd) (read write except : Bool) :
    WaitsForWatched (sessionStep t (.add fd read write except)) ↔
      respects t (.add fd read write except) := by
  obtain ⟨hfds, hmax, htimeout⟩ := waitsForWatched_iff.mp h
  rw [waitsForWatched_iff, sessionStep, nvSelectAddFd, if_neg (Nat.not_le.mpr fd.isLt)]
  simp only [hfds, hmax, htimeout, true_and, and_true, respects]
  by_cases hasked : ∃ kind, asks read write except kind = true
  · rw [anyKind_addFd_of_asked _ hasked, largest_insert]
    exact iff_of_true rfl (Or.inl hasked)
  · rw [addFd_of_not_asked _ hasked, or_iff_right hasked, ← le_largest_iff]
    split_ifs with hlt
    · exact iff_of_false (ne_of_gt hlt) (not_le.mpr hlt)
    · exact iff_of_true rfl (not_lt.mp hlt)

theorem WaitsForWatched.remove_iff (h : WaitsForWatched t) (fd : Fin nvSelectMaxFd) :
    WaitsForWatched (sessionStep t (.remove fd)) ↔ respects t (.remove fd) := by
  obtain ⟨hfds, hmax, htimeout⟩ := waitsForWatched_iff.mp h
  rw [waitsForWatched_iff, sessionStep, nvSelectRemoveFd]
  simp only [hfds, hmax, htimeout, true_and, and_true, respects, anyKind_removeFd]
  by_cases hlargest : (fd : Int) = largest (anyKind t.watched)
  · rw [if_pos hlargest]
    obtain ⟨hmem, hall⟩ := largest_eq_iff.mp hlargest.symm
    have hbelow : ∀ k ∈ anyKind (removeFd t.watched fd), k < (fd : Nat) := by
      intro k hk
      rw [anyKind_removeFd, Finset.mem_erase] at hk
      exact Nat.lt_of_le_of_ne (hall k hk.2) hk.1
    have hsearch := searchDown_eq hbelow
    rw [anyKind_removeFd] at hsearch
    -- nothing is found exactly if the descriptor was the only one, and `max_fd` stays then
    cases hfound : searchDown (removeFd t.watched fd) fd with
    | none =>
        rw [hfound] at hsearch
        dsimp only at hsearch ⊢
        rw [← hsearch, ← hlargest]
        refine iff_of_false (by omega) (not_not_intro ?_)
        refine Finset.eq_singleton_iff_unique_mem.mpr ⟨hmem, fun k hk => ?_⟩
        by_contra hne
        have hle : (k : Int) ≤ largest ((anyKind t.watched).erase fd) :=
          le_largest_iff.mpr ⟨k, Finset.mem_erase.mpr ⟨hne, hk⟩, Nat.le_refl k⟩
        omega
    | some i =>
        rw [hfound] at hsearch
        dsimp only at hsearch ⊢
        refine iff_of_true hsearch fun hone => ?_
        rw [hone, Finset.erase_singleton, largest_empty] at hsearch
        have hpos := Int.natCast_nonneg i
        omega
  · rw [if_neg hlargest, largest_erase hlargest]
    refine iff_of_true rfl fun hone => hlargest ?_
    refine (largest_eq_iff.mpr ?_).symm
    rw [hone]
    exact ⟨Finset.mem_singleton_self _, fun k hk => (Finset.mem_singleton.mp hk).le⟩

theorem WaitsForWatched.wait_iff (h : WaitsForWatched t) (result : SelectResult) :
    WaitsForWatched (sessionStep t (.wait result)) ↔ respects t (.wait result) := by
  obtain ⟨hfds, hmax, htimeout⟩ := waitsForWatched_iff.mp h
  rw [waitsForWatched_iff, sessionStep, nvSelectWait, NvSelect.args]
  cases result with
  | failed left =>
      simp only [select, if_true, hfds, hmax, true_and, respects]
  | returned ready left =>
      have hretval (a b c : Nat) : ¬ (a + b + c : Int) = -1 := by omega
      simp only [select, hretval, if_false, hfds, hmax, true_and, respects, funext_iff,
        Finset.inter_eq_left]

theorem waitsForWatched_step_iff (t : Session) (call : SelectCall) (h : WaitsForWatched t) :
    WaitsForWatched (sessionStep t call) ↔ respects t call := by
  cases call with
  | add fd read write except => exact h.add_iff fd read write except
  | remove fd => exact h.remove_iff fd
  | setTimeout sec usec =>
      obtain ⟨hfds, hmax, -⟩ := waitsForWatched_iff.mp h
      exact iff_of_true (waitsForWatched_iff.mpr ⟨hfds, hmax, rfl⟩) trivial
  | wait result => exact h.wait_iff result

end Calls

theorem waitsForWatched_start : WaitsForWatched sessionStart :=
  waitsForWatched_iff.mpr ⟨rfl, rfl, rfl⟩

/--
For all calls, with any results of `select`: after any number of them the next wait
passes to `select` the descriptors that were added and not removed, the timeout last set
and the largest watched descriptor plus one, exactly if no descriptor above all watched
ones is added for nothing, the only watched descriptor is never removed, every wait
leaves the timeout as it was, and every wait that succeeds finds all watched descriptors
ready for all that they are watched for.
-/
theorem nvSelect_waitsForWatched_iff (calls : List SelectCall) :
    (∀ before, before <+: calls → WaitsForWatched (run sessionStep sessionStart before)) ↔
      Along sessionStep respects sessionStart calls := by
  have hkeep (t : Session) (call : SelectCall) (h : WaitsForWatched t) (hcall : respects t call) :
      WaitsForWatched (sessionStep t call) :=
    (waitsForWatched_step_iff t call h).mpr hcall
  rw [forall_run_iff_along, and_iff_right waitsForWatched_start,
    along_iff_along_of_inv waitsForWatched_start hkeep waitsForWatched_step_iff]

theorem three_lt_nvSelectMaxFd : 3 < nvSelectMaxFd := by decide

/-- Descriptor 3. -/
def fd3 : Fin nvSelectMaxFd :=
  ⟨3, three_lt_nvSelectMaxFd⟩

/-- A wait that finds nothing ready, with no time left. -/
def timedOut : SelectResult :=
  .returned (fun _ => ∅) ⟨0, 0⟩

/--
Descriptor 3 is watched for reading.  When a wait has timed out, the next one watches
nothing and does not wait.  When the descriptor is removed, or was added for nothing, the
next wait looks at four descriptors instead of none.
-/
theorem waits_for_nothing :
    let waited := run sessionStep sessionStart
      [.add fd3 true false false, .setTimeout 5 0, .wait timedOut]
    let removed := run sessionStep sessionStart [.add fd3 true false false, .remove fd3]
    let unasked := run sessionStep sessionStart [.add fd3 false false false]
    (waited.watched .read = {3} ∧ waited.obj.args.fds .read = ∅ ∧
        waited.timeout = ⟨5, 0⟩ ∧ waited.obj.args.timeout = ⟨0, 0⟩ ∧ ¬ WaitsForWatched waited) ∧
      (anyKind removed.watched = ∅ ∧ removed.obj.args.nfds = 4 ∧ ¬ WaitsForWatched removed) ∧
      (anyKind unasked.watched = ∅ ∧ unasked.obj.args.nfds = 4 ∧ ¬ WaitsForWatched unasked) := by
  refine ⟨⟨by decide, by decide, by decide, by decide, fun h => ?_⟩,
    ⟨by decide, by decide, fun h => ?_⟩, ⟨by decide, by decide, fun h => ?_⟩⟩
  · exact absurd (waitsForWatched_iff.mp h).2.2 (by decide)
  · exact absurd (waitsForWatched_iff.mp h).2.1 (by decide)
  · exact absurd (waitsForWatched_iff.mp h).2.1 (by decide)

end Libnv.Select
