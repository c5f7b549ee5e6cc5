import Libnv.Lib.CText

/-!
# Lines of a stream

A stream is a list of lines with a newline between any two of them; the last line
may be empty.  When all the lines fit into the buffer, `fgets` delivers them one
by one, and a reader that takes no notice of the newline at the end of a buffer
sees exactly the lines.

The other half of the module is about white space at the two ends of a text.
-/

namespace Libnv.CText

universe u v

section Ends

variable {α : Type u} (p : α → Bool) {xs ys : List α}

theorem dropWhile_append_cons {b : α} (hb : ¬ p b = true) (xs ys : List α) :
    (xs ++ b :: ys).dropWhile p = xs.dropWhile p ++ b :: ys := by
  rw [List.dropWhile_append]
  cases hxs : xs.dropWhile p with
  | nil => simp [List.dropWhile_cons_of_neg hb]
  | cons x rest => simp

theorem rdropWhile_append_cons {b : α} (hb : ¬ p b = true) (xs ys : List α) :
    (xs ++ b :: ys).rdropWhile p = xs ++ b :: ys.rdropWhile p := by
  unfold List.rdropWhile
  rw [List.reverse_append, List.reverse_cons, List.append_assoc, List.singleton_append,
    dropWhile_append_cons p hb]
  simp

theorem rdropWhile_append_of_pos (hys : ∀ y ∈ ys, p y = true) (xs : List α) :
    (xs ++ ys).rdropWhile p = xs.rdropWhile p := by
  unfold List.rdropWhile
  rw [List.reverse_append, List.dropWhile_append_of_pos (by simpa using hys)]

theorem dropWhile_eq_nil_of_pos (hxs : ∀ x ∈ xs, p x = true) : xs.dropWhile p = [] :=
  List.dropWhile_eq_nil_iff.mpr hxs

/-- A stretch of bytes that ends where the next byte is of another kind. -/
theorem takeWhile_append_of_head (hxs : ∀ x ∈ xs, p x = true) (hys : ∀ y ∈ ys.head?, p y = false) :
    (xs ++ ys).takeWhile p = xs := by
  rw [List.takeWhile_append_of_pos hxs]
  cases ys with
  | nil => exact List.append_nil xs
  | cons y rest =>
      have hy : ¬ p y = true := by rw [hys y rfl]; exact Bool.false_ne_true
      rw [List.takeWhile_cons_of_neg hy, List.append_nil]

theorem dropWhile_append_of_head (hxs : ∀ x ∈ xs, p x = true) (hys : ∀ y ∈ ys.head?, p y = false) :
    (xs ++ ys).dropWhile p = ys := by
  rw [List.dropWhile_append_of_pos hxs]
  cases ys with
  | nil => rfl
  | cons y rest =>
      have hy : ¬ p y = true := by rw [hys y rfl]; exact Bool.false_ne_true
      exact List.dropWhile_cons_of_neg hy

/-- A text that is not all white space keeps its lead when something is appended. -/
theorem takeWhile_append_of_ne_nil (hxs : xs.dropWhile p ≠ []) (ys : List α) :
    (xs ++ ys).takeWhile p = xs.takeWhile p := by
  rw [List.takeWhile_append]
  split
  next hlen =>
    have hself := (List.takeWhile_prefix p).eq_of_length hlen
    exact absurd (List.dropWhile_eq_nil_iff.mpr (List.takeWhile_eq_self_iff.mp hself)) hxs
  · rfl

/-- Cutting the white space at the end leaves the other bytes. -/
theorem dropWhile_rdropWhile_ne_nil (hxs : xs.dropWhile p ≠ []) :
    (xs.rdropWhile p).dropWhile p ≠ [] := by
  have hne : xs.rdropWhile p ≠ [] := by
    intro h
    exact hxs (List.dropWhile_eq_nil_iff.mpr (List.rdropWhile_eq_nil_iff.mp h))
  intro h
  have hlast := List.dropWhile_eq_nil_iff.mp h _ (List.getLast_mem hne)
  exact List.rdropWhile_last_not p xs hne hlast

end Ends

section Trim

variable {b : UInt8} {blanks text : List UInt8}

theorem trim_subset (text : List UInt8) : trim text ⊆ text := fun _ hb =>
  List.dropWhile_subset isSpace ((List.rdropWhile_prefix isSpace _).subset hb)

/-- A text that is trimmed begins with the first byte that is not white space. -/
theorem head?_dropWhile_of_trim {bs : List UInt8} (h : trim text = b :: bs) :
    (text.dropWhile isSpace).head? = some b := by
  obtain ⟨rest, hrest⟩ := List.rdropWhile_prefix isSpace (l := text.dropWhile isSpace)
  rw [show (text.dropWhile isSpace).rdropWhile isSpace = b :: bs from h] at hrest
  rw [← hrest]
  rfl

theorem trim_blanks_append (h : ∀ b ∈ blanks, isSpace b = true)
    (text : List UInt8) : trim (blanks ++ text) = trim text := by
  unfold trim
  rw [List.dropWhile_append_of_pos h]

theorem trim_append_blanks (h : ∀ b ∈ blanks, isSpace b = true)
    (text : List UInt8) : trim (text ++ blanks) = trim text := by
  unfold trim
  rw [List.dropWhile_append]
  cases htext : text.dropWhile isSpace with
  | nil => simp [dropWhile_eq_nil_of_pos isSpace h]
  | cons b rest => simpa using rdropWhile_append_of_pos isSpace h (b :: rest)

theorem trim_append_cons (hb : ¬ isSpace b = true) (xs ys : List UInt8) :
    trim (xs ++ b :: ys) = xs.dropWhile isSpace ++ b :: ys.rdropWhile isSpace := by
  unfold trim
  rw [dropWhile_append_cons isSpace hb, rdropWhile_append_cons isSpace hb]

theorem trim_dropWhile (text : List UInt8) : trim (text.dropWhile isSpace) = trim text := by
  unfold trim
  rw [List.dropWhile_idempotent]

theorem trim_rdropWhile (text : List UInt8) : trim (text.rdropWhile isSpace) = trim text := by
  have hblanks : ∀ b ∈ text.rtakeWhile isSpace, isSpace b = true := by
    intro b hb
    exact List.mem_rtakeWhile_imp hb
  calc trim (text.rdropWhile isSpace)
      = trim (text.rdropWhile isSpace ++ text.rtakeWhile isSpace) :=
        (trim_append_blanks hblanks _).symm
    _ = trim text := by rw [List.rdropWhile_append_rtakeWhile]

theorem dropWhile_of_trim_eq_self (h : trim text = text) : text.dropWhile isSpace = text := by
  have hsuffix := List.dropWhile_suffix (l := text) isSpace
  have hlen : text.length ≤ (text.dropWhile isSpace).length := by
    have hprefix := (List.rdropWhile_prefix isSpace (l := text.dropWhile isSpace)).length_le
    rwa [show (text.dropWhile isSpace).rdropWhile isSpace = text from h] at hprefix
  exact hsuffix.eq_of_length_le hlen

theorem rdropWhile_of_trim_eq_self (h : trim text = text) : text.rdropWhile isSpace = text := by
  unfold trim at h
  rwa [dropWhile_of_trim_eq_self h] at h

end Trim

section Fgets

variable {line : List UInt8} {n : Nat}

theorem fgetsTake_line_append (hline : 10 ∉ line) (hn : line.length ≤ n) (rest : List UInt8) :
    fgetsTake n (line ++ rest) =
      (line ++ (fgetsTake (n - line.length) rest).1, (fgetsTake (n - line.length) rest).2) := by
  induction line generalizing n with
  | nil => rfl
  | cons b line ih =>
      obtain ⟨hb, hrest⟩ := not_or.mp (mt List.mem_cons.mpr hline)
      cases n with
      | zero => exact absurd hn (Nat.not_succ_le_zero _)
      | succ n =>
          have hb' : ¬ b = 10 := fun h => hb h.symm
          simp only [List.cons_append, fgetsTake, hb', if_false, ih hrest (Nat.le_of_succ_le_succ hn),
            List.length_cons, Nat.add_sub_add_right]

theorem fgetsTake_line (hline : 10 ∉ line) (hn : line.length < n)
    (rest : List UInt8) : fgetsTake n (line ++ 10 :: rest) = (line ++ [10], rest) := by
  obtain ⟨m, hm⟩ : ∃ m, n - line.length = m + 1 := ⟨n - line.length - 1, by omega⟩
  rw [fgetsTake_line_append hline (Nat.le_of_lt hn), hm]
  simp [fgetsTake]

/-- `fgets` takes what is left when there is no newline any more. -/
theorem fgetsTake_last (hline : 10 ∉ line) (hn : line.length ≤ n) :
    fgetsTake n line = (line, []) := by
  have htake := fgetsTake_line_append hline hn []
  cases hroom : n - line.length <;> simpa [fgetsTake, hroom] using htake

theorem fgetsTake_append (n : Nat) (bs : List UInt8) :
    (fgetsTake n bs).1 ++ (fgetsTake n bs).2 = bs := by
  fun_induction fgetsTake n bs with
  | case1 => rfl
  | case2 => rfl
  | case3 => rfl
  | case4 n b bs _ line rest hrest ih =>
      rw [hrest] at ih
      exact congrArg (b :: ·) ih

/-- A line that fills the buffer leaves what follows it in the stream. -/
theorem fgetsTake_full {left : List UInt8} (hleft : 10 ∉ left) (hn : left.length = n)
    (rest : List UInt8) : fgetsTake n (left ++ rest) = (left, rest) := by
  rw [fgetsTake_line_append hleft (Nat.le_of_eq hn), hn, Nat.sub_self]
  simp [fgetsTake]

/-- A call takes at least one byte. -/
theorem length_fgetsTake_lt (hn : 0 < n) {bs : List UInt8} (hbs : bs ≠ []) :
    (fgetsTake n bs).2.length < bs.length := by
  have hsplit := congrArg List.length (fgetsTake_append n bs)
  rw [List.length_append] at hsplit
  have htaken : 0 < (fgetsTake n bs).1.length := by
    obtain ⟨b, bs, rfl⟩ := List.exists_cons_of_ne_nil hbs
    obtain ⟨n, rfl⟩ := Nat.exists_eq_succ_of_ne_zero (Nat.ne_of_gt hn)
    unfold fgetsTake
    split <;> simp
  omega

/-- The lines of a stream, each but the last one with its newline. -/
def unlines : List (List UInt8) → List UInt8
  | [] => []
  | [line] => line
  | line :: lines => line ++ 10 :: unlines lines

/-- A line that does not fill a buffer of the given size. -/
def Fits (size : Nat) (line : List UInt8) : Prop :=
  10 ∉ line ∧ line.length + 1 < size

theorem fgetsLoop_succ {size fuel : Nat} {bs : List UInt8} (hbs : bs ≠ []) :
    fgetsLoop size (fuel + 1) bs =
      (fgetsTake (size - 1) bs).1 :: fgetsLoop size fuel (fgetsTake (size - 1) bs).2 := by
  cases bs with
  | nil => exact absurd rfl hbs
  | cons b bs => rfl

section Buffers

variable {size : Nat} (hsize : 2 ≤ size)
include hsize

/-- More fuel than bytes changes nothing. -/
theorem fgetsLoop_eq {fuel : Nat} {bs : List UInt8} (hfuel : bs.length ≤ fuel) :
    fgetsLoop size fuel bs = fgetsLines size bs := by
  suffices hboth : ∀ fuel fuel' bs, bs.length ≤ fuel → bs.length ≤ fuel' →
      fgetsLoop size fuel bs = fgetsLoop size fuel' bs from
    hboth fuel bs.length bs hfuel (Nat.le_refl _)
  clear hfuel fuel bs
  intro fuel
  induction fuel with
  | zero =>
      intro fuel' bs hbs _
      rw [List.length_eq_zero_iff.mp (Nat.le_zero.mp hbs)]
      cases fuel' <;> rfl
  | succ fuel ih =>
      intro fuel' bs hbs hbs'
      by_cases hnil : bs = []
      · subst hnil
        cases fuel' <;> rfl
      · have hrest := length_fgetsTake_lt (n := size - 1) (by omega) hnil
        cases fuel' with
        | zero => omega
        | succ fuel' =>
            rw [fgetsLoop_succ hnil, fgetsLoop_succ hnil, ih fuel' _ (by omega) (by omega)]

/-- The first buffer, and those of the rest of the stream. -/
theorem fgetsLines_of_ne_nil {bs : List UInt8} (hbs : bs ≠ []) :
    fgetsLines size bs =
      (fgetsTake (size - 1) bs).1 :: fgetsLines size (fgetsTake (size - 1) bs).2 := by
  have hrest := length_fgetsTake_lt (n := size - 1) (by omega) hbs
  obtain ⟨fuel, hfuel⟩ : ∃ fuel, bs.length = fuel + 1 := ⟨bs.length - 1, by omega⟩
  rw [fgetsLines, hfuel, fgetsLoop_succ hbs, fgetsLoop_eq hsize (by omega)]

/-- The buffers are the stream, in its order. -/
theorem flatten_fgetsLines (bs : List UInt8) : (fgetsLines size bs).flatten = bs := by
  induction hn : bs.length using Nat.strong_induction_on generalizing bs with
  | _ n ih =>
      subst hn
      by_cases hnil : bs = []
      · subst hnil
        rfl
      · have hrest := length_fgetsTake_lt (n := size - 1) (by omega) hnil
        rw [fgetsLines_of_ne_nil hsize hnil, List.flatten_cons, ih _ hrest _ rfl, fgetsTake_append]

/-- A line that does not end in a newline is cut into pieces of the size of the buffer. -/
theorem fgetsLines_line {line : List UInt8} (hline : 10 ∉ line) (hnil : line ≠ []) :
    fgetsLines size line = line.take (size - 1) :: fgetsLines size (line.drop (size - 1)) := by
  rw [fgetsLines_of_ne_nil hsize hnil]
  by_cases hlong : size - 1 ≤ line.length
  · have htake : 10 ∉ line.take (size - 1) := fun h => hline (List.mem_of_mem_take h)
    have hfull := fgetsTake_full htake (List.length_take_of_le hlong) (line.drop (size - 1))
    rw [List.take_append_drop] at hfull
    rw [hfull]
  · rw [fgetsTake_last hline (by omega), List.take_of_length_le (by omega),
      List.drop_eq_nil_of_le (by omega)]

end Buffers

variable {σ : Type v} {size : Nat} {read : σ → List UInt8 → σ}

/--
For a reader that ignores newlines and empty lines, the newline at the end of a
line makes no difference, wherever the line is cut.
-/
theorem foldl_fgetsLines_line (hsize : 2 ≤ size)
    (hnewline : ∀ s line, read s (line ++ [10]) = read s line) (hempty : ∀ s, read s [] = s)
    (hline : 10 ∉ line) (rest : List UInt8) (s : σ) :
    (fgetsLines size (line ++ 10 :: rest)).foldl read s =
      (fgetsLines size rest).foldl read ((fgetsLines size line).foldl read s) := by
  induction hn : line.length using Nat.strong_induction_on generalizing line s with
  | _ n ih =>
      subst hn
      have hne : line ++ 10 :: rest ≠ [] :=
        List.append_ne_nil_of_right_ne_nil _ (List.cons_ne_nil _ _)
      rw [fgetsLines_of_ne_nil hsize hne]
      by_cases hlong : size - 1 ≤ line.length
      · -- the buffer is full before the newline
        have hnil : line ≠ [] := by
          rintro rfl
          simp at hlong
          omega
        have htake : 10 ∉ line.take (size - 1) := fun h => hline (List.mem_of_mem_take h)
        have hdrop : 10 ∉ line.drop (size - 1) := fun h => hline (List.mem_of_mem_drop h)
        have hfull := fgetsTake_full htake (List.length_take_of_le hlong)
          (line.drop (size - 1) ++ 10 :: rest)
        rw [← List.append_assoc, List.take_append_drop] at hfull
        rw [hfull, List.foldl_cons, ih _ (by rw [List.length_drop]; omega) hdrop _ rfl,
          fgetsLines_line hsize hline hnil, List.foldl_cons]
      · rw [fgetsTake_line hline (by omega), List.foldl_cons, hnewline]
        by_cases hnil : line = []
        · subst hnil
          rw [hempty]
          rfl
        · rw [fgetsLines_line hsize hline hnil, List.take_of_length_le (by omega),
            List.drop_eq_nil_of_le (by omega)]
          rfl

@[elab_as_elim] theorem lines_induction {motive : List UInt8 → Prop}
    (last : ∀ line, 10 ∉ line → motive line)
    (cons : ∀ line rest, 10 ∉ line → motive rest → motive (line ++ 10 :: rest))
    (content : List UInt8) : motive content := by
  induction hn : content.length using Nat.strong_induction_on generalizing content with
  | _ n ih =>
      subst hn
      by_cases hmem : 10 ∈ content
      · obtain ⟨line, rest, rfl, hline⟩ := List.eq_append_cons_of_mem hmem
        exact cons line rest hline (ih rest.length (by simp; omega) rest rfl)
      · exact last content hmem

/-- A line of a stream is a part of it without newlines. -/
theorem of_mem_splitOn {content : List UInt8} (h : line ∈ content.splitOn 10) :
    10 ∉ line ∧ line ⊆ content := by
  induction content using lines_induction with
  | last last hlast =>
      rw [List.splitOn_eq_singleton hlast, List.mem_singleton] at h
      subst h
      exact ⟨hlast, List.Subset.refl _⟩
  | cons first rest hfirst ih =>
      rw [List.splitOn_append_cons_self_of_not_mem hfirst, List.mem_cons] at h
      obtain rfl | h := h
      · exact ⟨hfirst, List.subset_append_left _ _⟩
      · have hrest : rest ⊆ first ++ 10 :: rest :=
          List.Subset.trans (List.subset_cons_self 10 rest) (List.subset_append_right _ _)
        exact ⟨(ih h).1, List.Subset.trans (ih h).2 hrest⟩

/-- A stream is read line by line. -/
theorem foldl_fgetsLines_splitOn (hsize : 2 ≤ size)
    (hnewline : ∀ s line, read s (line ++ [10]) = read s line) (hempty : ∀ s, read s [] = s)
    (content : List UInt8) (s : σ) :
    (fgetsLines size content).foldl read s =
      (content.splitOn 10).foldl (fun s line => (fgetsLines size line).foldl read s) s := by
  induction content using lines_induction generalizing s with
  | last line hline =>
      rw [List.splitOn_eq_singleton hline]
      rfl
  | cons line rest hline ih =>
      rw [List.splitOn_append_cons_self_of_not_mem hline, List.foldl_cons,
        foldl_fgetsLines_line hsize hnewline hempty hline, ih]

theorem foldl_fgetsLines (hnewline : ∀ s line, read s (line ++ [10]) = read s line)
    (hempty : ∀ s, read s [] = s) {lines : List (List UInt8)}
    (hlines : ∀ line ∈ lines, Fits size line) (s : σ) :
    (fgetsLines size (unlines lines)).foldl read s = lines.foldl read s := by
  have hfits : ∀ line s, Fits size line → (fgetsLines size line).foldl read s = read s line := by
    intro line s hfits
    have hsize : 2 ≤ size := by
      have := hfits.2
      omega
    by_cases hnil : line = []
    · subst hnil
      exact (hempty s).symm
    · rw [fgetsLines_line hsize hfits.1 hnil, List.take_of_length_le (by have := hfits.2; omega),
        List.drop_eq_nil_of_le (by have := hfits.2; omega)]
      rfl
  fun_induction unlines lines generalizing s with
  | case1 => rfl
  | case2 line => exact hfits line s (hlines line (List.mem_singleton_self line))
  | case3 line lines hne ih =>
      obtain ⟨hline, hrest⟩ := List.forall_mem_cons.mp hlines
      have hsize : 2 ≤ size := by
        have := hline.2
        omega
      rw [foldl_fgetsLines_line hsize hnewline hempty hline.1, hfits line s hline, ih hrest,
        List.foldl_cons]

/-- A stream whose lines all end with a newline has an empty last line. -/
theorem unlines_concat_nil (lines : List (List UInt8)) :
    unlines (lines ++ [[]]) = lines.flatMap (· ++ [10]) := by
  induction lines with
  | nil => rfl
  | cons line lines ih =>
      have hcons : unlines (line :: (lines ++ [[]])) = line ++ 10 :: unlines (lines ++ [[]]) := by
        cases lines <;> rfl
      rw [List.cons_append, hcons, ih, List.flatMap_cons, List.append_assoc, List.singleton_append]

end Fgets

end Libnv.CText
