import Mathlib.Data.List.Nodup
import Mathlib.Logic.Function.Basic

/-!
# Doubly linked lists over a pointer heap

A doubly linked list is given by two link functions `next prev : E → Option E`
on an arbitrary type `E` of nodes and by a head pointer.  The predicate
`Segment` describes a contiguous piece of such a list: where it is entered,
which node precedes it, which nodes it contains, and what follows it.

The two results used by clients are `linked_cons` (push a fresh node at the
head) and `linked_erase` (unlink an arbitrary member).  Both are stated for
link functions that agree with the expected pointwise updates, so that a
program may keep its links inside a larger record; `linked_unlink` is the case
in which a member is unlinked through its own pointers.
-/

namespace Libnv.DoublyLinked

universe u

variable {E : Type u}

/--
A list segment entered at `h` with predecessor `p`, visiting `xs`, whose last
node is `q` (or `p` if `xs` is empty) and whose continuation pointer is `t`.
-/
def Segment (next prev : E → Option E) :
    Option E → Option E → List E → Option E → Option E → Prop
  | p, h, [], q, t => q = p ∧ t = h
  | p, h, e :: xs, q, t =>
      h = some e ∧ prev e = p ∧
        Segment next prev (some e) (next e) xs q t

/-- The whole list reached from `head`, in both directions. -/
def Linked (next prev : E → Option E) (head : Option E) (xs : List E) : Prop :=
  ∃ q, Segment next prev none head xs q none

section Segments

variable {next prev next' prev' : E → Option E} {h p q t : Option E} {xs : List E}

theorem segment_append (xs ys : List E) (p h q t : Option E) :
    Segment next prev p h (xs ++ ys) q t
      ↔
    ∃ m k, Segment next prev p h xs m k ∧
      Segment next prev m k ys q t := by
  induction xs generalizing p h with
  | nil =>
      constructor
      · intro hs
        exact ⟨p, h, ⟨rfl, rfl⟩, hs⟩
      · rintro ⟨m, k, ⟨rfl, rfl⟩, hs⟩
        exact hs
  | cons e xs ih =>
      simp only [List.cons_append, Segment, ih]
      constructor
      · rintro ⟨hh, hp, m, k, hx, hy⟩
        exact ⟨m, k, ⟨hh, hp, hx⟩, hy⟩
      · rintro ⟨m, k, ⟨hh, hp, hx⟩, hy⟩
        exact ⟨hh, hp, m, k, hx, hy⟩

theorem segment_congr (hnext : ∀ e ∈ xs, next' e = next e)
    (hprev : ∀ e ∈ xs, prev' e = prev e) (hs : Segment next prev p h xs q t) :
    Segment next' prev' p h xs q t := by
  induction xs generalizing p h with
  | nil =>
      exact hs
  | cons e xs ih =>
      obtain ⟨hh, hp, hs⟩ := hs
      refine ⟨hh, ?_, ?_⟩
      · rw [hprev e (by simp), hp]
      · rw [hnext e (by simp)]
        exact ih
          (fun x hx => hnext x (List.mem_cons_of_mem _ hx))
          (fun x hx => hprev x (List.mem_cons_of_mem _ hx)) hs

/-- Entering a segment from another predecessor only touches its first `prev`. -/
theorem segment_reenter (p' : Option E) (hnodup : xs.Nodup)
    (hnext : ∀ e ∈ xs, next' e = next e) (hprev : ∀ e ∈ xs, h ≠ some e → prev' e = prev e)
    (hentry : ∀ e, h = some e → prev' e = p') (hs : Segment next prev p h xs q t) :
    ∃ q', Segment next' prev' p' h xs q' t := by
  cases xs with
  | nil =>
      exact ⟨p', rfl, hs.2⟩
  | cons e xs =>
      obtain ⟨hh, -, hs⟩ := hs
      have hfresh : ∀ x ∈ xs, h ≠ some x := by
        rintro x hx rfl
        obtain rfl : x = e := by simpa using hh
        exact (List.nodup_cons.mp hnodup).1 hx
      refine ⟨q, hh, hentry e hh, ?_⟩
      rw [hnext e (by simp)]
      exact segment_congr
        (fun x hx => hnext x (List.mem_cons_of_mem _ hx))
        (fun x hx => hprev x (List.mem_cons_of_mem _ hx) (hfresh x hx)) hs

theorem segment_last (hs : Segment next prev p h xs q t) : q = xs.getLast?.or p := by
  induction xs generalizing p h with
  | nil =>
      simpa [Segment] using hs.1
  | cons e xs ih =>
      rw [ih hs.2.2]
      cases xs with
      | nil => simp
      | cons y ys =>
          have hlast :=
            List.getLast?_eq_some_getLast (List.cons_ne_nil y ys)
          rw [List.getLast?_cons_cons, hlast]
          rfl

theorem segment_entry (hs : Segment next prev p h xs q t) : h = xs.head?.or t := by
  cases xs with
  | nil => simpa [Segment] using hs.2.symm
  | cons e xs => simpa using hs.1

end Segments

section Lists

variable {next prev next' prev' : E → Option E} {head : Option E}

theorem linked_head {xs : List E} (hl : Linked next prev head xs) : head = xs.head? := by
  obtain ⟨q, hs⟩ := hl
  simpa using segment_entry hs

theorem linked_member {xs ys : List E} {e : E} (hl : Linked next prev head (xs ++ e :: ys)) :
    prev e = xs.getLast? ∧ next e = ys.head? := by
  obtain ⟨q, hs⟩ := hl
  obtain ⟨m, k, hx, -, hprev, hy⟩ := (segment_append _ _ _ _ _ _).mp hs
  constructor
  · rw [hprev, segment_last hx]
    simp
  · simpa using segment_entry hy

/-- Push a fresh node in front of a list. -/
theorem linked_cons {xs : List E} {e : E} (hfresh : e ∉ xs) (hnodup : xs.Nodup)
    (hnextE : next' e = head) (hprevE : prev' e = none) (hnext : ∀ x ∈ xs, next' x = next x)
    (hprev : ∀ x ∈ xs, head ≠ some x → prev' x = prev x)
    (hold : ∀ x, head = some x → prev' x = some e) (hl : Linked next prev head xs) :
    (e :: xs).Nodup ∧ Linked next' prev' (some e) (e :: xs) := by
  obtain ⟨q, hs⟩ := hl
  obtain ⟨q', hs'⟩ := segment_reenter (some e) hnodup hnext hprev hold hs
  refine ⟨List.nodup_cons.mpr ⟨hfresh, hnodup⟩, q', rfl, hprevE, ?_⟩
  rw [hnextE]
  exact hs'

/--
Unlink a member.  The predecessor (or the head) takes over the member's
`next`, and the successor takes over its `prev`.
-/
theorem linked_erase {xs ys : List E} {e : E} {head' : Option E} (hnodup : (xs ++ e :: ys).Nodup)
    (hhead : head' = if xs = [] then next e else head)
    (hnext : ∀ x ∈ xs ++ ys, prev e ≠ some x → next' x = next x)
    (hprev : ∀ x ∈ xs ++ ys, next e ≠ some x → prev' x = prev x)
    (hpred : ∀ x, prev e = some x → next' x = next e)
    (hsucc : ∀ x, next e = some x → prev' x = prev e) (hl : Linked next prev head (xs ++ e :: ys)) :
    Linked next' prev' head' (xs ++ ys) := by
  obtain ⟨hprevE, hnextE⟩ := linked_member hl
  obtain ⟨q, hs⟩ := hl
  obtain ⟨m, k, hx, hk, hm, hy⟩ := (segment_append _ _ _ _ _ _).mp hs
  rw [List.nodup_append] at hnodup
  obtain ⟨hnx, hney, hdisj⟩ := hnodup
  obtain ⟨hey, hny⟩ := List.nodup_cons.mp hney
  have hsuccFresh : ∀ x ∈ ys, prev e ≠ some x := by
    intro x hx' heq
    rw [hprevE] at heq
    exact hdisj x (List.mem_of_getLast? heq) x (by simp [hx']) rfl
  have hpredFresh : ∀ x ∈ xs, next e ≠ some x := by
    intro x hx' heq
    rw [hnextE] at heq
    exact hdisj x hx' x (by simp [List.mem_of_head? heq]) rfl
  -- the part after the member is entered from the member's predecessor
  obtain ⟨q', hy'⟩ :=
    segment_reenter (prev e) hny
      (fun x hx' => hnext x (by simp [hx']) (hsuccFresh x hx'))
      (fun x hx' hne => hprev x (by simp [hx']) hne) hsucc hy
  refine ⟨q', ?_⟩
  rcases List.eq_nil_or_concat xs with rfl | ⟨ws, w, rfl⟩
  · simp only [if_true] at hhead
    rw [hhead]
    simpa [hprevE] using hy'
  · have hprevW : prev e = some w := by simpa using hprevE
    have hww : w ∉ ws := by
      intro hmem
      simp only [List.concat_eq_append] at hnx
      exact (List.nodup_append.mp hnx).2.2 w hmem w (by simp) rfl
    simp only [List.concat_eq_append] at hx hnext hprev hhead hpredFresh ⊢
    obtain ⟨m', k', hws, hk', hm', -⟩ := (segment_append _ _ _ _ _ _).mp hx
    have hheadEq : head' = head := by simpa using hhead
    rw [hheadEq, List.append_assoc, segment_append]
    refine ⟨m', k', ?_, hk', ?_, ?_⟩
    · refine segment_congr ?_ ?_ hws
      · intro x hx'
        refine hnext x (by simp [hx']) ?_
        rw [hprevW]
        rintro ⟨⟩
        exact hww hx'
      · intro x hx'
        exact hprev x (by simp [hx']) (hpredFresh x (by simp [hx']))
    · rw [hprev w (by simp) (hpredFresh w (by simp)), hm']
    · rw [hpred w hprevW, ← hprevW]
      exact hy'

end Lists

section Unlink

variable [DecidableEq E] {next prev : E → Option E}

/-- The forward links once `e` has been unlinked through its own pointers. -/
def unlinkNext (next prev : E → Option E) (e : E) : E → Option E :=
  fun x => if x = e then none else if prev e = some x then next e else next x

/-- The backward links once `e` has been unlinked through its own pointers. -/
def unlinkPrev (next prev : E → Option E) (e : E) : E → Option E :=
  fun x => if x = e then none else if next e = some x then prev e else prev x

theorem linked_unlink {head : Option E} {xs ys : List E} {e : E} (hnodup : (xs ++ e :: ys).Nodup)
    (hl : Linked next prev head (xs ++ e :: ys)) :
    Linked (unlinkNext next prev e) (unlinkPrev next prev e)
      (if xs = [] then next e else head) (xs ++ ys) := by
  obtain ⟨hprevE, hnextE⟩ := linked_member hl
  have hnotin : e ∉ xs ++ ys := (List.nodup_cons.mp (List.nodup_middle.mp hnodup)).1
  refine linked_erase hnodup rfl ?_ ?_ ?_ ?_ hl
  · intro x hx hne
    have hxe : x ≠ e := fun h => hnotin (h ▸ hx)
    simp [unlinkNext, hxe, hne]
  · intro x hx hne
    have hxe : x ≠ e := fun h => hnotin (h ▸ hx)
    simp [unlinkPrev, hxe, hne]
  · intro x hx
    have hxe : x ≠ e := by
      rintro rfl
      rw [hprevE] at hx
      exact hnotin (List.mem_append_left _ (List.mem_of_getLast? hx))
    simp [unlinkNext, hxe, hx]
  · intro x hx
    have hxe : x ≠ e := by
      rintro rfl
      rw [hnextE] at hx
      exact hnotin (List.mem_append_right _ (List.mem_of_head? hx))
    simp [unlinkPrev, hxe, hx]

end Unlink

section Reachability

/-- The node is reached from the pointer by following `next`. -/
inductive Reach (next : E → Option E) : Option E → E → Prop where
  | here (e : E) : Reach next (some e) e
  | step {e x : E} (h : Reach next (next e) x) : Reach next (some e) x

variable {next prev next' : E → Option E}

theorem segment_mem_iff_reach {xs : List E} {p h q : Option E} {x : E}
    (hs : Segment next prev p h xs q none) : x ∈ xs ↔ Reach next h x := by
  induction xs generalizing p h with
  | nil =>
      obtain rfl : h = none := hs.2.symm
      constructor
      · intro hx
        cases hx
      · intro hx
        cases hx
  | cons e xs ih =>
      obtain ⟨rfl, -, hs⟩ := hs
      constructor
      · intro hx
        rcases List.mem_cons.mp hx with rfl | hx
        · exact .here x
        · exact .step ((ih hs).mp hx)
      · intro hx
        cases hx with
        | here => exact List.mem_cons_self
        | step hx => exact List.mem_cons_of_mem _ ((ih hs).mpr hx)

theorem linked_mem_iff_reach {head : Option E} {xs : List E} {x : E}
    (hl : Linked next prev head xs) : x ∈ xs ↔ Reach next head x := by
  obtain ⟨q, hs⟩ := hl
  exact segment_mem_iff_reach hs

/-- A node stays reachable when only its own `next` is written. -/
theorem Reach.congr {h : Option E} {x : E} (hr : Reach next h x)
    (hnext : ∀ y, y ≠ x → next' y = next y) : Reach next' h x := by
  induction hr with
  | here e => exact .here e
  | @step e x _ ih =>
      by_cases he : e = x
      · rw [he]
        exact .here x
      · refine .step ?_
        rw [hnext e he]
        exact ih hnext

end Reachability

end Libnv.DoublyLinked
