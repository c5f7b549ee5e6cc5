import Mathlib.Logic.Relation
import Libnv.Base.IniLines

/-!
# Layout of INI files

Blanks and tabs at the ends of a line, around the `=` of an entry and inside the
brackets of a header, and comments, are layout.  The parser ignores all of it with
one exception: the name of a section is trimmed in its buffer by a function that
returns where the text starts, and the caller drops that pointer.  Blanks before
the name stay in the name, and a name of blanks only keeps all of them.
-/

namespace Libnv.Ini

open CText

def isBlank (b : UInt8) : Bool :=
  b = 32 ∨ b = 9

/-- An insertion into a line, with the parts of the line around it. -/
inductive LayoutEdit where
  | atStart (blanks line : List UInt8)
  | atEnd (line blanks : List UInt8)
  | inBrackets (lead left name right rest : List UInt8)
  | aroundEquals (key left right value : List UInt8)
  | comment (line text : List UInt8)

namespace LayoutEdit

/-- The line as it was. -/
def before : LayoutEdit → List UInt8
  | atStart _ line => line
  | atEnd line _ => line
  | inBrackets lead _ name _ rest => lead ++ 91 :: (name ++ 93 :: rest)
  | aroundEquals key _ _ value => key ++ 61 :: value
  | comment line _ => line

/-- The line after the insertion. -/
def after : LayoutEdit → List UInt8
  | atStart blanks line => blanks ++ line
  | atEnd line blanks => line ++ blanks
  | inBrackets lead left name right rest => lead ++ 91 :: ((left ++ name ++ right) ++ 93 :: rest)
  | aroundEquals key left right value => (key ++ left) ++ 61 :: (right ++ value)
  | comment line text => line ++ 59 :: text

/-- What is inserted is layout, and a header or an entry is one. -/
def IsLayout : LayoutEdit → Prop
  | atStart blanks _ => ∀ b ∈ blanks, isBlank b = true
  | atEnd _ blanks => ∀ b ∈ blanks, isBlank b = true
  | inBrackets lead left name right _ =>
      (∀ b ∈ lead, isSpace b = true) ∧ (∀ b ∈ left, isBlank b = true) ∧
        (∀ b ∈ right, isBlank b = true) ∧ (∀ b ∈ name, live b = true) ∧ 93 ∉ name
  | aroundEquals key left right _ =>
      (∀ b ∈ left, isBlank b = true) ∧ (∀ b ∈ right, isBlank b = true) ∧
        (∀ b ∈ key, live b = true) ∧ 61 ∉ key ∧ (key.dropWhile isSpace).head? ≠ some 91
  | comment _ _ => True

/-- The insertions that lookups do not see. -/
def Keeps : LayoutEdit → Prop
  | inBrackets _ left name right _ =>
      (left ++ name ++ right).take 127 = name.take 127 ∨
        left = [] ∧ name.dropWhile isSpace ≠ []
  | _ => True

end LayoutEdit

/-- An insertion of layout after which the line is still under 1023 bytes. -/
structure Insertion where
  edit : LayoutEdit
  isLayout : edit.IsLayout
  fits : Fits 1024 edit.after

/-- Two files that no call of `nv_ini_get_string` tells apart. -/
def SameLookups (ini ini' : IniFile) : Prop :=
  ∀ (sectionName : Option CString) (key : CString) (default : Option CString),
    nvIniGetString ini' sectionName key default = nvIniGetString ini sectionName key default

/-- Some line of a file receives an insertion that lookups do not see. -/
def LayoutStep (lines lines' : List (List UInt8)) : Prop :=
  ∃ (e : Insertion) (above below : List (List UInt8)),
    e.edit.Keeps ∧ lines = above ++ e.edit.before :: below ∧ lines' = above ++ e.edit.after :: below

theorem spaces_of_blanks {blanks : List UInt8} (h : ∀ b ∈ blanks, isBlank b = true) :
    ∀ b ∈ blanks, isSpace b = true := by
  intro b hb
  have hblank := h b hb
  simp only [isBlank, decide_eq_true_eq] at hblank
  rcases hblank with rfl | rfl <;> decide

theorem toLower_of_isSpace {b : UInt8} (h : isSpace b = true) : toLower b = b := by
  simp only [isSpace, decide_eq_true_eq] at h
  simp only [toLower]
  rw [if_neg]
  rintro ⟨hlo, -⟩
  rcases h with rfl | ⟨-, hhi⟩
  · revert hlo
    decide
  · exact absurd (UInt8.le_trans hlo hhi) (by decide)

theorem isSpace_toLower (b : UInt8) : isSpace (toLower b) = isSpace b := by
  unfold isSpace toLower
  split <;> grind

/-- Texts that differ in case only start with the same white space. -/
theorem takeWhile_isSpace_of_map_toLower {s t : List UInt8} (h : s.map toLower = t.map toLower) :
    s.takeWhile isSpace = t.takeWhile isSpace := by
  have hmap : ∀ u : List UInt8, (u.map toLower).takeWhile isSpace = u.takeWhile isSpace := by
    intro u
    induction u with
    | nil => rfl
    | cons b u ih =>
        by_cases hb : isSpace b = true
        · have hlow := toLower_of_isSpace hb
          rw [List.map_cons, hlow, List.takeWhile_cons_of_pos hb, List.takeWhile_cons_of_pos hb, ih]
        · have hlow : ¬ isSpace (toLower b) = true := by rwa [isSpace_toLower]
          rw [List.map_cons, List.takeWhile_cons_of_neg hlow, List.takeWhile_cons_of_neg hb]
  rw [← hmap s, ← hmap t, h]

section Names

theorem dropWhile_nvIniTrimInplace_snd (text : List UInt8) :
    (nvIniTrimInplace text).2.dropWhile isSpace = [] ↔ text.dropWhile isSpace = [] := by
  rw [nvIniTrimInplace_snd]
  split
  · rfl
  next hne => exact iff_of_false (dropWhile_rdropWhile_ne_nil isSpace hne) hne

theorem takeWhile_nvIniTrimInplace_snd (text : List UInt8) :
    (nvIniTrimInplace text).2.takeWhile isSpace = text.takeWhile isSpace := by
  rw [nvIniTrimInplace_snd]
  split
  · rfl
  next hne =>
    have happend := takeWhile_append_of_ne_nil isSpace (dropWhile_rdropWhile_ne_nil isSpace hne)
      (text.rtakeWhile isSpace)
    rw [← happend, List.rdropWhile_append_rtakeWhile]

theorem sectionOf_bytes {name : List UInt8} (h : ∀ b ∈ name, live b = true) :
    (sectionOf name).bytes = (nvIniTrimInplace (name.take 127)).2 := by
  have hsubset : ∀ b ∈ (nvIniTrimInplace (name.take 127)).2, b ∈ name := by
    intro b hb
    rw [nvIniTrimInplace_snd] at hb
    split at hb
    · exact List.mem_of_mem_take hb
    · exact List.mem_of_mem_take ((List.rdropWhile_prefix isSpace _).subset hb)
  refine List.takeWhile_eq_self_iff.mpr ?_
  intro b hb
  have hlive := h b (hsubset b hb)
  simp only [live, decide_eq_true_eq] at hlive
  exact decide_eq_true hlive.1

/-- Names that are equal up to case agree on the white space that stays in them. -/
theorem sectionOf_equal {name name' : List UInt8} (h : ∀ b ∈ name, live b = true)
    (h' : ∀ b ∈ name', live b = true)
    (hequal : equalIgnoreCase (sectionOf name) (sectionOf name') = true) :
    (name.take 127).takeWhile isSpace = (name'.take 127).takeWhile isSpace ∧
      ((name.take 127).dropWhile isSpace = [] ↔ (name'.take 127).dropWhile isSpace = []) := by
  have hmap : (nvIniTrimInplace (name.take 127)).2.map toLower =
      (nvIniTrimInplace (name'.take 127)).2.map toLower := by
    simpa only [equalIgnoreCase, decide_eq_true_eq, sectionOf_bytes h, sectionOf_bytes h'] using
      hequal
  have hlead := takeWhile_isSpace_of_map_toLower hmap
  have hlength := congrArg List.length hmap
  simp only [List.length_map] at hlength
  rw [← takeWhile_nvIniTrimInplace_snd (name.take 127),
    ← takeWhile_nvIniTrimInplace_snd (name'.take 127),
    ← dropWhile_nvIniTrimInplace_snd (name.take 127),
    ← dropWhile_nvIniTrimInplace_snd (name'.take 127)]
  refine ⟨hlead, ?_⟩
  have hsplit : ∀ text : List UInt8,
      text.dropWhile isSpace = [] ↔ (text.takeWhile isSpace).length = text.length := by
    intro text
    have hlen := congrArg List.length (List.takeWhile_append_dropWhile (p := isSpace) (l := text))
    rw [List.length_append] at hlen
    rw [← List.length_eq_zero_iff]
    omega
  rw [hsplit, hsplit, hlead, hlength]

variable {left name right : List UInt8}

theorem live_between (hleft : ∀ b ∈ left, isSpace b = true) (hright : ∀ b ∈ right, isSpace b = true)
    (hname : ∀ b ∈ name, live b = true) : ∀ b ∈ left ++ name ++ right, live b = true := by
  intro b hb
  simp only [List.mem_append] at hb
  rcases hb with (hb | hb) | hb
  · exact live_of_isSpace (hleft b hb)
  · exact hname b hb
  · exact live_of_isSpace (hright b hb)

theorem sectionOf_eq_of_keeps (hright : ∀ b ∈ right, isSpace b = true)
    (hkeeps : (left ++ name ++ right).take 127 = name.take 127 ∨
      left = [] ∧ name.dropWhile isSpace ≠ []) :
    sectionOf (left ++ name ++ right) = sectionOf name := by
  unfold sectionOf
  rcases hkeeps with htake | ⟨rfl, hname⟩
  · rw [htake]
  · rw [List.nil_append, List.take_append]
    by_cases hclip : (name.take 127).dropWhile isSpace = []
    · -- the buffer ends within the blanks before the first other byte of the name
      have hlong : 127 < name.length := by
        by_contra hshort
        rw [List.take_of_length_le (Nat.le_of_not_lt hshort)] at hclip
        exact hname hclip
      rw [Nat.sub_eq_zero_of_le (Nat.le_of_lt hlong), List.take_zero, List.append_nil]
    · have hblanks : ∀ b ∈ right.take (127 - name.length), isSpace b = true := by
        intro b hb
        exact hright b (List.mem_of_mem_take hb)
      have hne : (name.take 127 ++ right.take (127 - name.length)).dropWhile isSpace ≠ [] := by
        intro h
        refine hclip (List.dropWhile_eq_nil_iff.mpr ?_)
        intro b hb
        exact List.dropWhile_eq_nil_iff.mp h b (List.mem_append_left _ hb)
      rw [nvIniTrimInplace_snd, nvIniTrimInplace_snd, if_neg hne, if_neg hclip,
        rdropWhile_append_of_pos isSpace hblanks]

theorem keeps_of_equalIgnoreCase (hleft : ∀ b ∈ left, isSpace b = true)
    (hright : ∀ b ∈ right, isSpace b = true) (hname : ∀ b ∈ name, live b = true)
    (hequal : equalIgnoreCase (sectionOf (left ++ name ++ right)) (sectionOf name) = true) :
    (left ++ name ++ right).take 127 = name.take 127 ∨ left = [] ∧ name.dropWhile isSpace ≠ [] := by
  have hlive := live_between hleft hright hname
  obtain ⟨hlead, hblank⟩ := sectionOf_equal hlive hname hequal
  by_cases hclip : (name.take 127).dropWhile isSpace = []
  · -- both names are white space, and all of it is kept
    left
    have hself : ∀ text : List UInt8, text.dropWhile isSpace = [] →
        text.takeWhile isSpace = text := fun text h =>
      List.takeWhile_eq_self_iff.mpr (List.dropWhile_eq_nil_iff.mp h)
    rwa [hself _ (hblank.mpr hclip), hself _ hclip] at hlead
  · right
    have hne : name.dropWhile isSpace ≠ [] := by
      intro h
      refine hclip (List.dropWhile_eq_nil_iff.mpr ?_)
      intro b hb
      exact List.dropWhile_eq_nil_iff.mp h b (List.mem_of_mem_take hb)
    have hname127 := takeWhile_append_of_ne_nil isSpace hclip (name.drop 127)
    have hall127 := takeWhile_append_of_ne_nil isSpace (mt hblank.mp hclip)
      ((left ++ name ++ right).drop 127)
    rw [List.take_append_drop] at hname127 hall127
    rw [← hname127, ← hall127, List.append_assoc, List.takeWhile_append_of_pos hleft,
      takeWhile_append_of_ne_nil isSpace hne] at hlead
    exact ⟨by simpa using hlead, hne⟩

end Names

theorem nvIniLine_inBrackets_before {lead left name right rest : List UInt8}
    (h : (LayoutEdit.inBrackets lead left name right rest).IsLayout) (st : IniParse) :
    nvIniLine st (LayoutEdit.inBrackets lead left name right rest).before =
      { st with sectionName := sectionOf name } := by
  obtain ⟨hlead, -, -, hname, hclosed⟩ := h
  exact nvIniLine_header st hlead hname hclosed rest

theorem nvIniLine_inBrackets_after {lead left name right rest : List UInt8}
    (h : (LayoutEdit.inBrackets lead left name right rest).IsLayout) (st : IniParse) :
    nvIniLine st (LayoutEdit.inBrackets lead left name right rest).after =
      { st with sectionName := sectionOf (left ++ name ++ right) } := by
  obtain ⟨hlead, hleft, hright, hname, hclosed⟩ := h
  have hlive := live_between (spaces_of_blanks hleft) (spaces_of_blanks hright) hname
  have hopen : 93 ∉ left ++ name ++ right := by
    intro hmem
    simp only [List.mem_append] at hmem
    rcases hmem with (hmem | hmem) | hmem
    · exact absurd (hleft 93 hmem) (by decide)
    · exact hclosed hmem
    · exact absurd (hright 93 hmem) (by decide)
  exact nvIniLine_header st hlead hlive hopen rest

theorem nvIniLine_aroundEquals {key left right value : List UInt8}
    (h : (LayoutEdit.aroundEquals key left right value).IsLayout) (st : IniParse) :
    nvIniLine st (LayoutEdit.aroundEquals key left right value).after =
      nvIniLine st (LayoutEdit.aroundEquals key left right value).before := by
  obtain ⟨hleft, hright, hkey, hequal, hhead⟩ := h
  simp only [LayoutEdit.after, LayoutEdit.before]
  rw [nvIniLine_entry_blanks st hkey hequal hhead (spaces_of_blanks hleft)
    (spaces_of_blanks hright), nvIniLine_entry st hkey hequal hhead]

/-- An insertion that keeps the section does to the parser what the line did before. -/
theorem nvIniLine_after {e : LayoutEdit} (hlayout : e.IsLayout) (hkeeps : e.Keeps) (st : IniParse) :
    nvIniLine st e.after = nvIniLine st e.before := by
  cases e with
  | atStart blanks line =>
      exact nvIniLine_blanks_append st (spaces_of_blanks hlayout) line
  | atEnd line blanks =>
      exact nvIniLine_append_blanks st (spaces_of_blanks hlayout) line
  | inBrackets lead left name right rest =>
      have hright := spaces_of_blanks hlayout.2.2.1
      rw [nvIniLine_inBrackets_after hlayout, nvIniLine_inBrackets_before hlayout,
        sectionOf_eq_of_keeps hright hkeeps]
  | aroundEquals key left right value => exact nvIniLine_aroundEquals hlayout st
  | comment line text => exact nvIniLine_comment st line text

theorem Insertion.before_fits (e : Insertion) : Fits 1024 e.edit.before := by
  have hsub : e.edit.before.Sublist e.edit.after := by
    cases e.edit with
    | atStart blanks line => exact List.sublist_append_right blanks line
    | atEnd line blanks => exact List.sublist_append_left line blanks
    | inBrackets lead left name right rest =>
        refine (List.Sublist.refl lead).append (List.Sublist.cons_cons 91 ?_)
        refine List.Sublist.append ?_ (List.Sublist.refl _)
        exact (List.sublist_append_right left name).trans (List.sublist_append_left _ right)
    | aroundEquals key left right value =>
        refine (List.sublist_append_left key left).append (List.Sublist.cons_cons 61 ?_)
        exact List.sublist_append_right right value
    | comment line text => exact List.sublist_append_left line (59 :: text)
  obtain ⟨hnewline, hlen⟩ := e.fits
  exact ⟨fun h => hnewline (hsub.subset h), Nat.lt_of_le_of_lt (Nat.succ_le_succ hsub.length_le) hlen⟩

section Lookups

variable {above below : List (List UInt8)} {line : List UInt8} {lines lines' : List (List UInt8)}

theorem fits_insert (hfits : ∀ line ∈ above ++ below, Fits 1024 line) (hline : Fits 1024 line) :
    ∀ other ∈ above ++ line :: below, Fits 1024 other := by
  intro other hother
  rcases List.mem_append.mp hother with hmem | hmem
  · exact hfits other (List.mem_append_left _ hmem)
  · rcases List.mem_cons.mp hmem with rfl | hmem
    · exact hline
    · exact hfits other (List.mem_append_right _ hmem)

/-- An insertion that keeps the section loads to the same entries in every file. -/
theorem nvIniLoad_after {e : Insertion} (hkeeps : e.edit.Keeps)
    (hfits : ∀ line ∈ above ++ below, Fits 1024 line) :
    nvIniLoad (unlines (above ++ e.edit.after :: below)) =
      nvIniLoad (unlines (above ++ e.edit.before :: below)) := by
  rw [nvIniLoad_unlines (fits_insert hfits e.fits),
    nvIniLoad_unlines (fits_insert hfits e.before_fits)]
  simp only [List.foldl_append, List.foldl_cons, nvIniLine_after e.isLayout hkeeps]

/-- A step keeps the lines short and loads to the same entries. -/
theorem LayoutStep.load_eq (hstep : LayoutStep lines lines')
    (hfits : ∀ line ∈ lines, Fits 1024 line) :
    (∀ line ∈ lines', Fits 1024 line) ∧ nvIniLoad (unlines lines') = nvIniLoad (unlines lines) := by
  obtain ⟨e, above, below, hkeeps, rfl, rfl⟩ := hstep
  have hothers : ∀ line ∈ above ++ below, Fits 1024 line := by
    intro line hline
    rcases List.mem_append.mp hline with hmem | hmem
    · exact hfits line (List.mem_append_left _ hmem)
    · exact hfits line (List.mem_append_right _ (List.mem_cons_of_mem _ hmem))
  exact ⟨fits_insert hothers e.fits, nvIniLoad_after hkeeps hothers⟩

theorem nvIniLoad_layoutSteps (hsteps : Relation.ReflTransGen LayoutStep lines lines')
    (hfits : ∀ line ∈ lines, Fits 1024 line) :
    (∀ line ∈ lines', Fits 1024 line) ∧ nvIniLoad (unlines lines') = nvIniLoad (unlines lines) := by
  induction hsteps with
  | refl => exact ⟨hfits, rfl⟩
  | tail _ hstep ih =>
      obtain ⟨hfits', hload⟩ := ih
      obtain ⟨hfits'', hload'⟩ := hstep.load_eq hfits'
      exact ⟨hfits'', hload'.trans hload⟩

theorem nvIniGetString_under_header {name sectionName : CString}
    (hfits : Fits 1024 line) (hline : ∀ st, nvIniLine st line = { st with sectionName := name }) :
    nvIniGetString (nvIniLoad (unlines ([] ++ line :: [[107, 61, 118]]))) (some sectionName)
        (lit "k") none =
      if equalIgnoreCase name sectionName = true then some (lit "v") else none := by
  have hall : ∀ other ∈ [] ++ line :: [[107, 61, 118]], Fits 1024 other :=
    fits_insert (by simp [Fits]) hfits
  have hload : nvIniLoad (unlines ([] ++ line :: [[107, 61, 118]])) = [⟨name, lit "k", lit "v"⟩] := by
    rw [nvIniLoad_unlines hall]
    simp only [List.nil_append, List.foldl_cons, List.foldl_nil, hline]
    rfl
  rw [hload]
  cases hequal : equalIgnoreCase name sectionName <;>
    simp [nvIniGetString, nvIniFind, hequal]

/-- An insertion is invisible in every file exactly when it keeps the section of its header. -/
theorem sameLookups_iff_keeps (e : Insertion) :
    (∀ above below : List (List UInt8), (∀ line ∈ above ++ below, Fits 1024 line) →
        SameLookups (nvIniLoad (unlines (above ++ e.edit.before :: below)))
          (nvIniLoad (unlines (above ++ e.edit.after :: below)))) ↔
      e.edit.Keeps := by
  constructor
  · intro hsame
    obtain ⟨edit, hlayout, hfits⟩ := e
    cases edit with
    | inBrackets lead left name right rest =>
        -- the entry below the header is found before the insertion, so it must be found after it
        let e : Insertion := ⟨.inBrackets lead left name right rest, hlayout, hfits⟩
        have hfound := hsame [] [[107, 61, 118]] (by simp [Fits]) (some (sectionOf name)) (lit "k") none
        rw [nvIniGetString_under_header hfits (nvIniLine_inBrackets_after hlayout),
          nvIniGetString_under_header e.before_fits (nvIniLine_inBrackets_before hlayout)] at hfound
        have hequal :
            equalIgnoreCase (sectionOf (left ++ name ++ right)) (sectionOf name) = true := by
          by_contra hdiffer
          have hself : equalIgnoreCase (sectionOf name) (sectionOf name) = true := by
            simp [equalIgnoreCase]
          rw [if_neg hdiffer, if_pos hself] at hfound
          exact absurd hfound (by simp)
        obtain ⟨-, hleft, hright, hname, -⟩ := hlayout
        exact keeps_of_equalIgnoreCase (spaces_of_blanks hleft) (spaces_of_blanks hright) hname
          hequal
    | atStart blanks line => trivial
    | atEnd line blanks => trivial
    | aroundEquals key left right value => trivial
    | comment line text => trivial
  · intro hkeeps above below hfits sectionName key default
    rw [nvIniLoad_after hkeeps hfits]

/-- Layout does not matter, except before the name in the brackets of a header or in brackets
with no name: an insertion is invisible in every file exactly when it is none of these, and any
number of such insertions in any lines of a file are invisible together. -/
theorem nvIni_layout_iff (e : Insertion) :
    ((∀ above below : List (List UInt8), (∀ line ∈ above ++ below, Fits 1024 line) →
        SameLookups (nvIniLoad (unlines (above ++ e.edit.before :: below)))
          (nvIniLoad (unlines (above ++ e.edit.after :: below)))) ↔
      e.edit.Keeps) ∧
    (∀ lines lines' : List (List UInt8), (∀ line ∈ lines, Fits 1024 line) →
      Relation.ReflTransGen LayoutStep lines lines' →
        SameLookups (nvIniLoad (unlines lines)) (nvIniLoad (unlines lines'))) := by
  refine ⟨sameLookups_iff_keeps e, ?_⟩
  intro lines lines' hfits hsteps sectionName key default
  rw [(nvIniLoad_layoutSteps hsteps hfits).2]

/-- The entry `k=v` below `[a]` is found in the section `a`; below `[ a]` it is not. -/
theorem nvIniLoad_blank_before_name :
    nvIniGetString (nvIniLoad (unlines [[91, 97, 93], [107, 61, 118]]))
        (some (lit "a")) (lit "k") none = some (lit "v") ∧
      nvIniGetString (nvIniLoad (unlines [[91, 32, 97, 93], [107, 61, 118]]))
        (some (lit "a")) (lit "k") none = none := by
  decide

/-- The insertion of blanks around the `=` of `k=v`. -/
def spacedEntry : Insertion where
  edit := .aroundEquals [107] [32] [32] [118]
  isLayout := by
    refine ⟨by simp [isBlank], by simp [isBlank], by simp [live], by decide, by decide⟩
  fits := by
    refine ⟨by decide, by decide⟩

theorem nvIni_layout_spacedEntry :
    SameLookups (nvIniLoad (unlines [[91, 97, 93], [107, 61, 118]]))
      (nvIniLoad (unlines [[91, 97, 93], [107, 32, 61, 32, 118]])) :=
  (nvIni_layout_iff spacedEntry).1.mpr trivial [[91, 97, 93]] [] (by simp [Fits])

end Lookups

end Libnv.Ini
