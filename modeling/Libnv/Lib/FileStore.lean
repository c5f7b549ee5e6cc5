import Mathlib.Data.List.Nodup
import Libnv.Lib.Transition

/-!
# Files that are shifted along a chain of names

A file store maps names to contents.  Records are appended to a file; `embed`
says which bytes a record is.

A chain is a list of names, the oldest file first.  The operations that keep a
log in it are to remove the oldest file, to rename a file to the name before it
if there is none of that name, to create a file, and to append to the last one.
Under these operations the contents of the chain, read in order, are always the
end of what was appended, in whole records.
-/

namespace Libnv.FileStore

open Transition

universe u v w

variable {N : Type u} {R : Type v} {B : Type w}

abbrev Files (N : Type u) (B : Type w) := N → Option (List B)

/-- An operation on a file store. -/
inductive Op (N : Type u) (R : Type v) where
  | remove (n : N)
  | rename (old new : N)
  | create (n : N)
  | append (n : N) (r : R)
deriving DecidableEq

/-- The names an operation may change. -/
def Op.touches : Op N R → List N
  | .remove n => [n]
  | .rename old new => [old, new]
  | .create n => [n]
  | .append n _ => [n]

def Op.record? : Op N R → Option R
  | .append _ r => some r
  | _ => none

def appended (ops : List (Op N R)) : List R := ops.filterMap Op.record?

theorem appended_append (as bs : List (Op N R)) :
    appended (as ++ bs) = appended as ++ appended bs :=
  List.filterMap_append

/-- What a file holds; a missing file is empty. -/
def contents (fs : Files N B) (n : N) : List B := (fs n).getD []

/-- The files of a list, one after the other. -/
def joined (fs : Files N B) (names : List N) : List B := names.flatMap (contents fs)

variable [DecidableEq N]

/-- Remove, rename and append do nothing if the file is missing. -/
def step (embed : R → List B) (fs : Files N B) : Op N R → Files N B
  | .remove n => Function.update fs n none
  | .rename old new =>
      match fs old with
      | none => fs
      | some c => Function.update (Function.update fs old none) new (some c)
  | .create n => Function.update fs n (some (contents fs n))
  | .append n r =>
      match fs n with
      | none => fs
      | some c => Function.update fs n (some (c ++ embed r))

theorem step_frame
    (embed : R → List B) (fs : Files N B) {op : Op N R} {n : N} (h : n ∉ op.touches) :
    step embed fs op n = fs n := by
  cases op with
  | remove m | create m =>
      exact Function.update_of_ne (List.ne_of_not_mem_cons h) _ _
  | rename old new =>
      simp only [Op.touches, List.mem_cons, List.not_mem_nil, or_false, not_or] at h
      simp only [step]
      cases fs old with
      | none => rfl
      | some c =>
          dsimp only
          rw [Function.update_of_ne h.2, Function.update_of_ne h.1]
  | append m r =>
      simp only [step]
      cases fs m with
      | none => rfl
      | some c => exact Function.update_of_ne (List.ne_of_not_mem_cons h) _ _

theorem run_frame (embed : R → List B) (fs : Files N B) {ops : List (Op N R)} {n : N}
    (h : ∀ op ∈ ops, n ∉ op.touches) : run (step embed) fs ops n = fs n := by
  induction ops generalizing fs with
  | nil => rfl
  | cons op ops ih =>
      have hrest : ∀ op' ∈ ops, n ∉ op'.touches := fun op' hop' =>
        h op' (List.mem_cons_of_mem _ hop')
      exact (ih _ hrest).trans (step_frame embed fs (h op List.mem_cons_self))

section Chain

/-- An operation that keeps a log in a chain of names. -/
inductive Keeps (names : List N) (fs : Files N B) : Op N R → Prop
  | remove {n : N} {rest : List N} (h : names = n :: rest) : Keeps names fs (.remove n)
  | shift {l r : List N} {old new : N} (h : names = l ++ new :: old :: r)
      (hmissing : fs new = none) : Keeps names fs (.rename old new)
  | create {n : N} (h : n ∈ names) : Keeps names fs (.create n)
  | append {l : List N} {n : N} (r : R) (h : names = l ++ [n]) (hexists : fs n ≠ none) :
      Keeps names fs (.append n r)

omit [DecidableEq N] in
theorem Keeps.touches_mem {names : List N} {fs : Files N B} {op : Op N R} (h : Keeps names fs op) :
    ∀ n ∈ op.touches, n ∈ names := by
  cases h with
  | remove h | create h | append r h => simp [Op.touches, h]
  | shift h => simp [Op.touches, h]

theorem touches_of_along
    {embed : R → List B} {names : List N} {fs : Files N B} {ops : List (Op N R)}
    (h : Along (step embed) (Keeps names) fs ops) : ∀ op ∈ ops, ∀ n ∈ op.touches, n ∈ names := by
  induction ops generalizing fs with
  | nil => simp
  | cons op ops ih =>
      rintro op' hop'
      rcases List.mem_cons.mp hop' with rfl | hmem
      · exact h.1.touches_mem
      · exact ih h.2 op' hmem

/-- Each file of the chain holds its records, and a missing file none. -/
structure Stores
    (embed : R → List B) (names : List N) (fs : Files N B) (files : N → List R) : Prop where
  missing : ∀ n ∈ names, fs n = none → files n = []
  contents : ∀ n ∈ names, contents fs n = (files n).flatMap embed

theorem flatMap_update_of_not_mem
    {names : List N} {n : N} (h : n ∉ names) (f : N → List R) (v : List R) :
    names.flatMap (Function.update f n v) = names.flatMap f := by
  refine List.flatMap_congr ?_
  intro x hx
  have hne : x ≠ n := fun heq => h (heq ▸ hx)
  exact Function.update_of_ne hne _ _

theorem flatMap_update_split
    {l r : List N} {n : N} (hnodup : (l ++ n :: r).Nodup) (f : N → List R) (v : List R) :
    (l ++ n :: r).flatMap (Function.update f n v) = l.flatMap f ++ (v ++ r.flatMap f) := by
  obtain ⟨-, hr, hl⟩ := List.nodup_append.mp hnodup
  have hn : n ∉ l := fun h => hl n h n List.mem_cons_self rfl
  rw [List.flatMap_append, List.flatMap_cons, flatMap_update_of_not_mem hn,
    flatMap_update_of_not_mem (List.nodup_cons.mp hr).1, Function.update_self]

variable {embed : R → List B} {names : List N} {fs : Files N B} {written : List R}
  {files : N → List R}

/-- One file changes together with its records. -/
theorem Stores.update (h : Stores embed names fs files) (n : N) {c : Option (List B)} {v : List R}
    (hnone : c = none → v = []) (hsome : c.getD [] = v.flatMap embed) :
    Stores embed names (Function.update fs n c) (Function.update files n v) := by
  constructor
  · intro m hm hmissing
    by_cases hmn : m = n
    · subst hmn
      rw [Function.update_self] at hmissing ⊢
      exact hnone hmissing
    · rw [Function.update_of_ne hmn] at hmissing ⊢
      exact h.missing m hm hmissing
  · intro m hm
    by_cases hmn : m = n
    · subst hmn
      rw [FileStore.contents, Function.update_self, Function.update_self]
      exact hsome
    · rw [FileStore.contents, Function.update_of_ne hmn, Function.update_of_ne hmn]
      exact h.contents m hm

omit [DecidableEq N] in
theorem Stores.get
    (h : Stores embed names fs files) {n : N} (hn : n ∈ names) {c : List B} (hc : fs n = some c) :
    c = (files n).flatMap embed := by
  have hcontents := h.contents n hn
  rw [FileStore.contents, hc] at hcontents
  exact hcontents

/-- Step lemma: the records of the chain stay the end of what was written. -/
theorem Stores.step (hnodup : names.Nodup) (h : Stores embed names fs files)
    (hsuffix : names.flatMap files <:+ written) {op : Op N R} (hop : Keeps names fs op) :
    ∃ files', Stores embed names (step embed fs op) files' ∧
      names.flatMap files' <:+ written ++ op.record?.toList := by
  cases hop with
  | @remove n rest hnames =>
      refine ⟨Function.update files n [], h.update n (fun _ => rfl) rfl, ?_⟩
      have hsplit := flatMap_update_split (l := []) (hnames ▸ hnodup) files []
      rw [List.nil_append] at hsplit
      rw [hnames] at hsuffix ⊢
      rw [hsplit]
      simp only [Op.record?, Option.toList_none, List.append_nil, List.flatMap_nil,
        List.nil_append]
      exact (List.suffix_append _ _).trans hsuffix
  | @shift l r old new hnames hmissing =>
      have hnew : files new = [] := h.missing new (by simp [hnames]) hmissing
      simp only [FileStore.step, Op.record?, Option.toList_none, List.append_nil]
      cases hold : fs old with
      | none => exact ⟨files, h, hsuffix⟩
      | some c =>
          have hc := h.get (by simp [hnames]) hold
          refine ⟨Function.update (Function.update files old []) new (files old), ?_, ?_⟩
          · exact (h.update old (fun _ => rfl) rfl).update new (fun h => by cases h) hc
          · -- the records move into the gap before them
            obtain ⟨-, hr, hl⟩ := List.nodup_append.mp (hnames ▸ hnodup)
            have hold_l : old ∉ l := fun hmem => hl old hmem old (by simp) rfl
            have hold_r : old ∉ r := (List.nodup_cons.mp (List.nodup_cons.mp hr).2).1
            rw [hnames] at hsuffix ⊢
            rw [flatMap_update_split (hnames ▸ hnodup), flatMap_update_of_not_mem hold_l,
              List.flatMap_cons, Function.update_self, List.nil_append,
              flatMap_update_of_not_mem hold_r]
            rw [List.flatMap_append, List.flatMap_cons, hnew, List.nil_append,
              List.flatMap_cons] at hsuffix
            exact hsuffix
  | @create n hmem =>
      refine ⟨files, ?_, ?_⟩
      · have hstores := h.update n (c := some (FileStore.contents fs n)) (v := files n)
          (fun h => by cases h) (h.contents n hmem)
        rw [Function.update_eq_self] at hstores
        exact hstores
      · simpa [Op.record?] using hsuffix
  | @append l n r hnames hexists =>
      obtain ⟨c, hc⟩ := Option.ne_none_iff_exists'.mp hexists
      have hbytes := h.get (by simp [hnames]) hc
      simp only [FileStore.step, hc]
      refine ⟨Function.update files n (files n ++ [r]), ?_, ?_⟩
      · refine h.update n (fun h => by cases h) ?_
        simp [hbytes]
      · rw [hnames] at hsuffix ⊢
        rw [flatMap_update_split (hnames ▸ hnodup)]
        simp only [List.flatMap_append, List.flatMap_cons, List.flatMap_nil, List.append_nil]
          at hsuffix ⊢
        simp only [Op.record?, Option.toList_some, ← List.append_assoc]
        exact List.suffix_append_self_iff.mpr hsuffix

/-- Run lemma: from a chain without files, at every moment the files are the end of what was
appended, in whole records. -/
theorem exists_stores_run
    (hnodup : names.Nodup) (hnew : ∀ n ∈ names, fs n = none) {ops : List (Op N R)}
    (hops : Along (FileStore.step embed) (Keeps names) fs ops) :
    ∃ files, Stores embed names (run (FileStore.step embed) fs ops) files ∧
      names.flatMap files <:+ appended ops := by
  suffices hgen : ∀ (fs : Files N B) (written : List R) (files : N → List R),
      Stores embed names fs files → names.flatMap files <:+ written →
      Along (FileStore.step embed) (Keeps names) fs ops →
      ∃ files', Stores embed names (run (FileStore.step embed) fs ops) files' ∧
        names.flatMap files' <:+ written ++ appended ops by
    refine hgen fs [] (fun _ => []) ⟨fun _ _ _ => rfl, ?_⟩ ?_ hops
    · intro n hn
      rw [FileStore.contents, hnew n hn]
      rfl
    · simp
  clear hnew hops
  induction ops with
  | nil =>
      intro fs written files h hsuffix _
      exact ⟨files, h, by simpa [appended] using hsuffix⟩
  | cons op ops ih =>
      intro fs written files h hsuffix hops
      obtain ⟨files', h', hsuffix'⟩ := h.step hnodup hsuffix hops.1
      obtain ⟨files'', h'', hsuffix''⟩ := ih _ _ files' h' hsuffix' hops.2
      refine ⟨files'', h'', ?_⟩
      have hcons : appended (op :: ops) = op.record?.toList ++ appended ops := by
        cases hrec : op.record? <;> simp [appended, hrec]
      rw [hcons, ← List.append_assoc]
      exact hsuffix''

omit [DecidableEq N] in
/-- The same for the bytes. -/
theorem Stores.joined_suffix
    (h : Stores embed names fs files) (hsuffix : names.flatMap files <:+ written) :
    joined fs names <:+ written.flatMap embed := by
  obtain ⟨before, rfl⟩ := hsuffix
  have hjoined : joined fs names = (names.flatMap files).flatMap embed := by
    rw [joined, List.flatMap_assoc]
    exact List.flatMap_congr h.contents
  rw [hjoined, List.flatMap_append]
  exact List.suffix_append _ _

/-- The renames that move every file of a chain to the name before it. -/
def shifts : List N → List (Op N R)
  | new :: old :: rest => .rename old new :: shifts (old :: rest)
  | _ => []

omit [DecidableEq N] in
theorem appended_shifts (names : List N) : appended (shifts names : List (Op N R)) = [] := by
  induction names with
  | nil => rfl
  | cons new rest ih =>
      cases rest with
      | nil => rfl
      | cons old rest => exact ih

/-- From the oldest file on, each rename finds the name before it free. -/
theorem along_shifts
    {l rest : List N} (hnodup : (l ++ rest).Nodup) (hhead : ∀ n ∈ rest.head?, fs n = none) :
    Along (FileStore.step embed) (Keeps (R := R) (l ++ rest)) fs (shifts rest) := by
  induction rest generalizing l fs with
  | nil => trivial
  | cons new rest ih =>
      cases rest with
      | nil => trivial
      | cons old rest =>
          have hmissing : fs new = none := hhead new rfl
          refine ⟨.shift rfl hmissing, ?_⟩
          have hassoc : l ++ new :: old :: rest = (l ++ [new]) ++ old :: rest := by simp
          rw [hassoc] at hnodup ⊢
          refine ih hnodup ?_
          rintro n ⟨⟩
          simp only [FileStore.step]
          cases hold : fs old with
          | none => exact hold
          | some c =>
              have hne : old ≠ new := by
                rintro rfl
                exact (List.nodup_append.mp hnodup).2.2 old (by simp) old (by simp) rfl
              dsimp only
              rw [Function.update_of_ne hne, Function.update_self]

end Chain

end Libnv.FileStore
