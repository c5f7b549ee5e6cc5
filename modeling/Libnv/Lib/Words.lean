import Libnv.Lib.Lines

/-!
# Words of a text

The words of a text are its maximal runs of bytes that do not separate: the pieces
between any two separators, without the empty ones.  A scanner sees a text as some
separators, a word and what follows the word.
-/

namespace Libnv.CText

universe u

variable {α : Type u} {p : α → Bool}

/-- The maximal runs of elements that do not satisfy `p`, in their order. -/
def words (p : α → Bool) (text : List α) : List (List α) :=
  (text.splitOnP p).filter (· ≠ [])

theorem words_cons {b : α} (hb : p b = true) (text : List α) :
    words p (b :: text) = words p text := by
  rw [words, List.splitOnP_cons_eq_if_modifyHead, if_pos hb, List.filter_cons_of_neg (by simp)]
  rfl

theorem words_blanks_append {blanks : List α} (hblanks : ∀ b ∈ blanks, p b = true)
    (text : List α) : words p (blanks ++ text) = words p text := by
  induction blanks with
  | nil => rfl
  | cons b blanks ih =>
      obtain ⟨hb, hrest⟩ := List.forall_mem_cons.mp hblanks
      rw [List.cons_append, words_cons hb, ih hrest]

theorem words_of_blanks {blanks : List α} (hblanks : ∀ b ∈ blanks, p b = true) :
    words p blanks = [] := by
  rw [← List.append_nil blanks, words_blanks_append hblanks]
  rfl

theorem words_word_append {word rest : List α} (hne : word ≠ []) (hword : ∀ b ∈ word, p b = false)
    (hrest : ∀ b ∈ rest.head?, p b = true) :
    words p (word ++ rest) = word :: words p (rest.drop 1) := by
  cases rest with
  | nil =>
      rw [List.append_nil, words, List.splitOnP_eq_singleton hword,
        List.filter_cons_of_pos (by simpa using hne)]
      rfl
  | cons b rest =>
      rw [words, List.splitOnP_append_cons_of_forall_mem hword b (hrest b rfl),
        List.filter_cons_of_pos (by simpa using hne)]
      rfl

theorem exists_word {text : List α} (h : ∃ b ∈ text, p b = false) :
    ∃ blanks word rest, text = blanks ++ (word ++ rest) ∧ (∀ b ∈ blanks, p b = true) ∧
      word ≠ [] ∧ (∀ b ∈ word, p b = false) ∧ ∀ b ∈ rest.head?, p b = true := by
  have hsplit : text = text.takeWhile p ++ text.dropWhile p :=
    List.takeWhile_append_dropWhile.symm
  have hne : text.dropWhile p ≠ [] := by
    intro hnil
    obtain ⟨b, hmem, hb⟩ := h
    rw [List.dropWhile_eq_nil_iff.mp hnil b hmem] at hb
    exact absurd hb.symm Bool.false_ne_true
  refine ⟨text.takeWhile p, (text.dropWhile p).takeWhile (! p ·),
    (text.dropWhile p).dropWhile (! p ·), ?_, ?_, ?_, ?_, ?_⟩
  · rw [List.takeWhile_append_dropWhile]
    exact hsplit
  · exact fun b hb => List.mem_takeWhile_imp hb
  · intro hnil
    have hhead := List.head_dropWhile_not p hne
    have hfirst := List.takeWhile_eq_nil_iff.mp hnil (List.length_pos_of_ne_nil hne)
    rw [List.head_eq_getElem] at hhead
    exact hfirst (by simpa using hhead)
  · intro b hb
    simpa using List.mem_takeWhile_imp hb
  · intro b hb
    have hlast := List.head?_dropWhile_not (! p ·) (text.dropWhile p)
    rw [hb] at hlast
    simpa using hlast

end Libnv.CText
