import Libnv.Base.Ini
import Libnv.Lib.Lines

/-!
# What a line of an INI file does

`nv_ini_load` treats a line by what is left of it after the comment is cut off and
the white space at its ends is gone.  The module says what a header and an entry
do, and that a file with short lines is read line by line.
-/

namespace Libnv.Ini

open CText

/-- A byte before the terminator and before any comment. -/
def live (b : UInt8) : Bool :=
  b ≠ 0 ∧ b ≠ 59

/-- The part of a line that is not a comment. -/
def visible (line : List UInt8) : List UInt8 :=
  line.takeWhile live

/-- The section that a header with the given text between the brackets opens. -/
def sectionOf (name : List UInt8) : CString :=
  CString.ofBuffer (nvIniTrimInplace (name.take 127)).2

theorem nvIniTrimInplace_fst (text : List UInt8) : (nvIniTrimInplace text).1 = trim text := by
  unfold nvIniTrimInplace trim
  cases text.dropWhile isSpace <;> rfl

/-- In the buffer only the white space at the end goes, and only when there is other text. -/
theorem nvIniTrimInplace_snd (text : List UInt8) :
    (nvIniTrimInplace text).2 =
      if text.dropWhile isSpace = [] then text else text.rdropWhile isSpace := by
  unfold nvIniTrimInplace
  cases hdrop : text.dropWhile isSpace with
  | nil => rfl
  | cons b rest =>
      have hb : ¬ isSpace b = true := by
        have hhead := List.head?_dropWhile_not isSpace text
        simpa [hdrop] using hhead
      have htext : text = text.takeWhile isSpace ++ b :: rest := by
        rw [← hdrop, List.takeWhile_append_dropWhile]
      have hright : text.rdropWhile isSpace =
          text.takeWhile isSpace ++ b :: rest.rdropWhile isSpace := by
        rw [← rdropWhile_append_cons isSpace hb, ← htext]
      have hleft := rdropWhile_append_cons isSpace hb [] rest
      simp only [List.nil_append] at hleft
      simp only [hright, hleft, reduceCtorEq, if_false]

theorem trim_nvIniTrimInplace_snd (text : List UInt8) :
    trim (nvIniTrimInplace text).2 = trim text := by
  rw [nvIniTrimInplace_snd]
  split
  · rfl
  · exact trim_rdropWhile text

theorem trim_nvIniStripComment (text : List UInt8) :
    trim (nvIniStripComment text) = trim (text.takeWhile (· ≠ 59)) := by
  unfold nvIniStripComment
  split
  · exact trim_nvIniTrimInplace_snd _
  next hsemi =>
    rw [List.takeWhile_eq_self_iff.mpr (decide_ne_of_not_mem hsemi)]

/-- A line acts through its visible part, trimmed. -/
theorem nvIniLine_eq (st : IniParse) (line : List UInt8) :
    nvIniLine st line = nvIniText st (trim (visible line)) := by
  have hvisible : (line.takeWhile (· ≠ 0)).takeWhile (· ≠ 59) = visible line := by
    rw [List.takeWhile_takeWhile]
    unfold visible
    congr 1
    funext b
    simp [live, and_comm]
  calc nvIniLine st line
      = nvIniText st (nvIniTrimInplace (nvIniStripComment (line.takeWhile (· ≠ 0)))).1 := rfl
    _ = nvIniText st (trim (visible line)) := by
      rw [nvIniTrimInplace_fst, trim_nvIniStripComment, hvisible]

theorem live_of_isSpace {b : UInt8} (h : isSpace b = true) : live b = true := by
  simp only [isSpace, live, decide_eq_true_eq] at h ⊢
  constructor
  · rintro rfl
    revert h
    decide
  · rintro rfl
    revert h
    decide

theorem visible_append {left : List UInt8} (h : ∀ b ∈ left, live b = true) (right : List UInt8) :
    visible (left ++ right) = left ++ visible right :=
  List.takeWhile_append_of_pos h

theorem visible_cons {b : UInt8} (h : live b = true) (right : List UInt8) :
    visible (b :: right) = b :: visible right :=
  List.takeWhile_cons_of_pos h

theorem visible_eq_self {text : List UInt8} (h : ∀ b ∈ text, live b = true) : visible text = text :=
  List.takeWhile_eq_self_iff.mpr h

/-- What follows a byte that is not live is not read. -/
theorem visible_append_cons {b : UInt8} (h : ¬ live b = true) (left right : List UInt8) :
    visible (left ++ b :: right) = visible left := by
  unfold visible
  rw [List.takeWhile_append, List.takeWhile_cons_of_neg h, List.append_nil]
  split
  next hlen => exact ((List.takeWhile_prefix live).eq_of_length hlen).symm
  · rfl

/-- White space at the end of a line is not read either. -/
theorem trim_visible_append_blanks {blanks : List UInt8} (h : ∀ b ∈ blanks, isSpace b = true)
    (line : List UInt8) : trim (visible (line ++ blanks)) = trim (visible line) := by
  unfold visible
  rw [List.takeWhile_append]
  split
  next hlen =>
    rw [(List.takeWhile_prefix live).eq_of_length hlen]
    exact trim_append_blanks (fun b hb => h b (List.takeWhile_subset live hb)) line
  · rfl

section Lines

variable (st : IniParse) {blanks key : List UInt8}

theorem nvIniLine_append_blanks (h : ∀ b ∈ blanks, isSpace b = true) (line : List UInt8) :
    nvIniLine st (line ++ blanks) = nvIniLine st line := by
  rw [nvIniLine_eq, nvIniLine_eq, trim_visible_append_blanks h]

theorem nvIniLine_blanks_append (h : ∀ b ∈ blanks, isSpace b = true) (line : List UInt8) :
    nvIniLine st (blanks ++ line) = nvIniLine st line := by
  rw [nvIniLine_eq, nvIniLine_eq, visible_append (fun b hb => live_of_isSpace (h b hb)),
    trim_blanks_append h]

theorem nvIniLine_comment (line text : List UInt8) :
    nvIniLine st (line ++ 59 :: text) = nvIniLine st line := by
  rw [nvIniLine_eq, nvIniLine_eq, visible_append_cons (by decide)]

theorem nvIniLine_nil : nvIniLine st [] = st := rfl

theorem nvIniLine_blank (h : ∀ b ∈ blanks, isSpace b = true) : nvIniLine st blanks = st :=
  (nvIniLine_append_blanks st h []).trans (nvIniLine_nil st)

/-- A header opens the section between its first bracket and the next closing one. -/
theorem nvIniLine_header {lead name : List UInt8} (hlead : ∀ b ∈ lead, isSpace b = true)
    (hlive : ∀ b ∈ name, live b = true) (hname : 93 ∉ name) (rest : List UInt8) :
    nvIniLine st (lead ++ 91 :: (name ++ 93 :: rest)) =
      { st with sectionName := sectionOf name } := by
  rw [nvIniLine_blanks_append st hlead, nvIniLine_eq, visible_cons (by decide),
    visible_append hlive, visible_cons (by decide)]
  rw [show trim (91 :: (name ++ 93 :: visible rest)) =
      91 :: (name ++ 93 :: (visible rest).rdropWhile isSpace) from
    trim_append_cons (by decide) (91 :: name) (visible rest)]
  simp only [nvIniText, sectionOf, List.mem_append, List.mem_cons, true_or, or_true, if_true]
  rw [takeWhile_ne_append_cons hname]

theorem nvIniText_of_head {text : List UInt8} (hhead : text.head? ≠ some 91) :
    nvIniText st text =
      if 61 ∈ text ∧ trim (text.takeWhile (· ≠ 61)) ≠ [] then
        nvIniAddEntry st (trim (text.takeWhile (· ≠ 61)))
          (trim ((text.dropWhile (· ≠ 61)).drop 1))
      else st := by
  unfold nvIniText
  split
  · rfl
  · exact absurd rfl hhead
  · simp only [nvIniTrimInplace_fst, ite_and, ite_not, ne_eq]

theorem nvIniLine_entry (hlive : ∀ b ∈ key, live b = true) (hkey : 61 ∉ key)
    (hhead : (key.dropWhile isSpace).head? ≠ some 91) (value : List UInt8) :
    nvIniLine st (key ++ 61 :: value) =
      if trim key = [] then st else nvIniAddEntry st (trim key) (trim (visible value)) := by
  have hkey' := decide_ne_of_not_mem fun h => hkey (List.dropWhile_subset isSpace h)
  rw [nvIniLine_eq, visible_append hlive, visible_cons (by decide), trim_append_cons (by decide),
    nvIniText_of_head st (by cases hk : key.dropWhile isSpace <;> simp_all)]
  rw [List.takeWhile_append_of_pos hkey', List.dropWhile_append_of_pos hkey']
  simp [trim_dropWhile, trim_rdropWhile]

/-- White space around the `=` changes nothing. -/
theorem nvIniLine_entry_blanks {left right : List UInt8} (hlive : ∀ b ∈ key, live b = true)
    (hkey : 61 ∉ key) (hhead : (key.dropWhile isSpace).head? ≠ some 91)
    (hleft : ∀ b ∈ left, isSpace b = true) (hright : ∀ b ∈ right, isSpace b = true)
    (value : List UInt8) :
    nvIniLine st ((key ++ left) ++ 61 :: (right ++ value)) =
      if trim key = [] then st else nvIniAddEntry st (trim key) (trim (visible value)) := by
  have hlive' : ∀ b ∈ key ++ left, live b = true := by
    intro b hb
    rcases List.mem_append.mp hb with hb | hb
    · exact hlive b hb
    · exact live_of_isSpace (hleft b hb)
  have hkey' : 61 ∉ key ++ left := by
    intro hmem
    rcases List.mem_append.mp hmem with hb | hb
    · exact hkey hb
    · exact absurd (hleft 61 hb) (by decide)
  have hhead' : ((key ++ left).dropWhile isSpace).head? ≠ some 91 := by
    rw [List.dropWhile_append]
    cases hdrop : key.dropWhile isSpace with
    | nil => simp [dropWhile_eq_nil_of_pos isSpace hleft]
    | cons b rest => simpa [hdrop] using hhead
  rw [nvIniLine_entry st hlive' hkey' hhead', trim_append_blanks hleft,
    visible_append (fun b hb => live_of_isSpace (hright b hb)), trim_blanks_append hright]

theorem nvIniLine_newline (st : IniParse) (line : List UInt8) :
    nvIniLine st (line ++ [10]) = nvIniLine st line :=
  nvIniLine_append_blanks st (by simp [isSpace]) line

/-- A file whose lines are shorter than the buffer is read line by line. -/
theorem nvIniLoad_unlines {lines : List (List UInt8)} (hlines : ∀ line ∈ lines, Fits 1024 line) :
    nvIniLoad (unlines lines) = (lines.foldl nvIniLine ⟨CString.empty, []⟩).entries := by
  unfold nvIniLoad
  rw [foldl_fgetsLines nvIniLine_newline nvIniLine_nil hlines]

end Lines

end Libnv.Ini
