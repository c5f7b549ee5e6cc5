import Libnv.Base.IniLines

/-!
# What an INI file means

A document is a list of blank lines, headers and entries, written the way its
authors intend it.  Its entries, in file order, carry the name of the last header
before them.  A lookup in the loaded file is a lookup of the last such entry.
-/

namespace Libnv.Ini

open CText

/-- A line of a document; `left` and `right` stand around the `=`. -/
inductive IniLine where
  | blank (text : CString)
  | header (name : CString)
  | entry (key : CString) (left right : List UInt8) (value : CString)

namespace IniLine

/-- The bytes of a line, without the newline. -/
def text : IniLine → List UInt8
  | blank text => text.bytes
  | header name => 91 :: (name.bytes ++ [93])
  | entry key left right value => (key.bytes ++ left) ++ 61 :: (right ++ value.bytes)

/-- No white space at the two ends. -/
def Trimmed (s : CString) : Prop :=
  trim s.bytes = s.bytes

/-- What the author of a line keeps to. -/
def WellFormed : IniLine → Prop
  | blank text => ∀ b ∈ text.bytes, isSpace b = true
  | header name => name.length ≤ 127 ∧ 93 ∉ name.bytes ∧ 59 ∉ name.bytes ∧ Trimmed name
  | entry key left right value =>
      key ≠ CString.empty ∧ 61 ∉ key.bytes ∧ 59 ∉ key.bytes ∧ key.bytes.head? ≠ some 91 ∧
        Trimmed key ∧ (∀ b ∈ left, isSpace b = true) ∧ (∀ b ∈ right, isSpace b = true) ∧
        59 ∉ value.bytes ∧ Trimmed value

end IniLine

/-- A list of well-formed lines of at most 1022 bytes. -/
structure IniDocument where
  lines : List IniLine
  wellFormed : ∀ line ∈ lines, line.WellFormed
  fits : ∀ line ∈ lines, Fits 1024 line.text

/-- The entries of some lines in file order, each with the last header before it. -/
def entriesFrom (sectionName : CString) : List IniLine → List IniEntry
  | [] => []
  | .blank _ :: lines => entriesFrom sectionName lines
  | .header name :: lines => entriesFrom name lines
  | .entry key _ _ value :: lines => ⟨sectionName, key, value⟩ :: entriesFrom sectionName lines

namespace IniDocument

variable (doc : IniDocument)

/-- The file: every line ends with a newline. -/
def content : List UInt8 :=
  doc.lines.flatMap fun line => line.text ++ [10]

/-- The value of the last entry with the given key in the sections of the given name. -/
def lastValue (sectionName key : CString) : Option CString :=
  (((entriesFrom CString.empty doc.lines).filter fun entry =>
    equalIgnoreCase entry.sectionName sectionName && decide (entry.key = key)).getLast?).map
      IniEntry.value

end IniDocument

theorem live_of_mem_bytes {s : CString} (hs : 59 ∉ s.bytes) : ∀ b ∈ s.bytes, live b = true := by
  intro b hb
  have hnul : b ≠ 0 := fun h => s.nulFree (h ▸ hb)
  have hsemi : b ≠ 59 := fun h => hs (h ▸ hb)
  simp [live, hnul, hsemi]

theorem sectionOf_trimmed
    {name : CString} (hlen : name.length ≤ 127) (htrim : IniLine.Trimmed name) :
    sectionOf name.bytes = name := by
  unfold sectionOf
  rw [List.take_of_length_le hlen, nvIniTrimInplace_snd, rdropWhile_of_trim_eq_self htrim, ite_self,
    CString.ofBuffer_bytes]

theorem nvIniLine_of_blank {text : CString} (h : (IniLine.blank text).WellFormed) (st : IniParse) :
    nvIniLine st (IniLine.blank text).text = st :=
  nvIniLine_blank st h

theorem nvIniLine_of_header
    {name : CString} (h : (IniLine.header name).WellFormed) (st : IniParse) :
    nvIniLine st (IniLine.header name).text = { st with sectionName := name } := by
  obtain ⟨hlen, hbracket, hsemi, htrim⟩ := h
  have hlead : ∀ b ∈ ([] : List UInt8), isSpace b = true := by simp
  have hline := nvIniLine_header st hlead (live_of_mem_bytes hsemi) hbracket []
  rwa [sectionOf_trimmed hlen htrim] at hline

theorem nvIniLine_of_entry {key value : CString} {left right : List UInt8}
    (h : (IniLine.entry key left right value).WellFormed) (st : IniParse) :
    nvIniLine st (IniLine.entry key left right value).text =
      { st with entries := ⟨st.sectionName, key, value⟩ :: st.entries } := by
  obtain ⟨hne, heq, hsemi, hhead, hkey, hleft, hright, hvsemi, hvalue⟩ := h
  have hbytes : key.bytes ≠ [] := fun h => hne (CString.ext h)
  have hfirst : (key.bytes.dropWhile isSpace).head? ≠ some 91 := by
    rwa [dropWhile_of_trim_eq_self hkey]
  unfold IniLine.text
  rw [nvIniLine_entry_blanks st (live_of_mem_bytes hsemi) heq hfirst hleft hright,
    visible_eq_self (live_of_mem_bytes hvsemi), hkey, hvalue, if_neg hbytes]
  simp only [nvIniAddEntry, CString.ofBuffer_bytes]

/-- Reading lines puts their entries in front, the last one first. -/
theorem entries_foldl_nvIniLine
    {lines : List IniLine} (h : ∀ line ∈ lines, line.WellFormed) (st : IniParse) :
    ((lines.map IniLine.text).foldl nvIniLine st).entries =
      (entriesFrom st.sectionName lines).reverse ++ st.entries := by
  induction lines generalizing st with
  | nil => rfl
  | cons line lines ih =>
      obtain ⟨hline, hlines⟩ := List.forall_mem_cons.mp h
      rw [List.map_cons, List.foldl_cons, ih hlines]
      cases line with
      | blank text => rw [nvIniLine_of_blank hline, entriesFrom]
      | header name => rw [nvIniLine_of_header hline, entriesFrom]
      | entry key left right value =>
          rw [nvIniLine_of_entry hline, entriesFrom, List.reverse_cons, List.append_assoc,
            List.singleton_append]

/-- The file of a document, with the empty line that follows its last newline. -/
theorem IniDocument.content_eq (doc : IniDocument) :
    doc.content = unlines (doc.lines.map IniLine.text ++ [[]]) := by
  rw [unlines_concat_nil, List.flatMap_map, IniDocument.content]

theorem nvIniLoad_content (doc : IniDocument) :
    nvIniLoad doc.content = (entriesFrom CString.empty doc.lines).reverse := by
  have hfits : ∀ line ∈ doc.lines.map IniLine.text ++ [[]], Fits 1024 line := by
    intro line hline
    rcases List.mem_append.mp hline with hline | hline
    · obtain ⟨line, hmem, rfl⟩ := List.mem_map.mp hline
      exact doc.fits line hmem
    · rw [List.mem_singleton.mp hline]
      exact ⟨List.not_mem_nil, by decide⟩
  rw [doc.content_eq, nvIniLoad_unlines hfits, List.foldl_append, List.foldl_cons, List.foldl_nil,
    nvIniLine_nil, entries_foldl_nvIniLine doc.wellFormed, List.append_nil]

theorem nvIniFind_content (doc : IniDocument) (sectionName key : CString) :
    (nvIniFind (nvIniLoad doc.content) sectionName key).map IniEntry.value =
      doc.lastValue sectionName key := by
  unfold nvIniFind IniDocument.lastValue
  rw [nvIniLoad_content, ← List.head?_filter, List.filter_reverse, List.head?_reverse]

/-- After a document is loaded, a lookup returns the value of the last entry line with the key in
the sections of that name, and the default when there is none. -/
theorem nvIniGetString_last_value
    (doc : IniDocument)
    (sectionName : Option CString)
    (key : CString)
    (default : Option CString) :
    nvIniGetString (nvIniLoad doc.content) sectionName key default =
        (doc.lastValue (sectionName.getD CString.empty) key).or default ∧
      nvIniHasKey (nvIniLoad doc.content) (sectionName.getD CString.empty) key =
        (doc.lastValue (sectionName.getD CString.empty) key).isSome := by
  have hfind := nvIniFind_content doc (sectionName.getD CString.empty) key
  unfold nvIniGetString nvIniHasKey
  rw [← hfind]
  cases nvIniFind (nvIniLoad doc.content) (sectionName.getD CString.empty) key with
  | none => exact ⟨rfl, rfl⟩
  | some entry => exact ⟨rfl, rfl⟩

/-- A section that is opened twice, in different case, with one key in both parts. -/
def reopened : IniDocument where
  lines := [.header (lit "net"), .entry (lit "port") [32] [32] (lit "80"), .blank CString.empty,
    .header (lit "log"), .entry (lit "port") [] [9] (lit "514"),
    .header (lit "NET"), .entry (lit "port") [] [] (lit "8080")]
  wellFormed := by
    simp only [List.forall_mem_cons, List.not_mem_nil, IsEmpty.forall_iff, implies_true, and_true,
      IniLine.WellFormed, IniLine.Trimmed]
    and_intros <;> decide +kernel
  fits := by unfold Fits; decide +kernel

theorem nvIniGetString_reopened :
    nvIniGetString (nvIniLoad reopened.content) (some (lit "net")) (lit "port") none =
        some (lit "8080") ∧
      nvIniHasKey (nvIniLoad reopened.content) (lit "net") (lit "port") = true := by
  obtain ⟨hstring, hkey⟩ :=
    nvIniGetString_last_value reopened (some (lit "net")) (lit "port") none
  exact ⟨hstring.trans (by decide +kernel), hkey.trans (by decide +kernel)⟩

end Libnv.Ini
