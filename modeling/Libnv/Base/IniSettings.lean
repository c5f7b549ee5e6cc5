import Libnv.Base.IniLines
import Libnv.Lib.Transition

/-!
# One physical line, one setting

`nv_ini_load` reads with a buffer of 1024 bytes, so that it cuts a physical line of
more than 1023 bytes into pieces and treats each piece as a line.  A piece may then
be a setting or a header though the line is none: the end of a long comment, or of
a long value.

What the pieces do together can be read off each of them alone: the keys that they
store and the sections that they open.  The first piece does what the line may do, so
the condition is on the others.  The last line of a file may lack its newline and is
a physical line too.
-/

namespace Libnv.Ini

open CText Transition

def iniStart : IniParse := ⟨CString.empty, []⟩

/-- The loop of `nv_ini_load` on the buffers of one physical line. -/
def readLine (st : IniParse) (line : List UInt8) : IniParse :=
  (fgetsLines 1024 line).foldl nvIniLine st

/-- The text of a line before its first `=`, trimmed. -/
def ownKey (line : List UInt8) : List UInt8 :=
  trim (line.takeWhile (· ≠ 61))

/-- What a line may do: at most one entry with its key, and a section if it is a header. -/
structure OneSetting (line : List UInt8) (st st' : IniParse) : Prop where
  entry : st'.entries = st.entries ∨
    ∃ entry, st'.entries = entry :: st.entries ∧ 61 ∈ line ∧ entry.key.bytes = ownKey line
  header : st'.sectionName ≠ st.sectionName → (line.dropWhile isSpace).head? = some 91

/-- The key of a piece that reads as a setting. -/
def settingKey (piece : List UInt8) : Option (List UInt8) :=
  match trim (visible piece) with
  | 91 :: _ => none
  | text => if 61 ∈ text ∧ ownKey text ≠ [] then some (ownKey text) else none

/-- The section of a piece that reads as a header. -/
def headerName (piece : List UInt8) : Option CString :=
  match trim (visible piece) with
  | 91 :: p => if 93 ∈ p then some (sectionOf (p.takeWhile (· ≠ 93))) else none
  | _ => none

/--
The pieces of a line after the first, when it is read with the given section in force.
None of them reads as a setting, or just one with the line's own key and the first
piece does not; and the line starts with `[`, or the last of them that reads as a
header names the section that is in force.
-/
structure LaterQuiet (sectionName : CString) (line : List UInt8) : Prop where
  setting : (fgetsLines 1024 (line.drop 1023)).filterMap settingKey = [] ∨
    settingKey (line.take 1023) = none ∧
      (fgetsLines 1024 (line.drop 1023)).filterMap settingKey = [ownKey line]
  header : (line.dropWhile isSpace).head? = some 91 ∨
    ∀ name ∈ ((fgetsLines 1024 (line.drop 1023)).filterMap headerName).getLast?, name = sectionName

section Pieces

variable {piece line key : List UInt8} {st st' : IniParse}

theorem settingKey_of_head (h : (trim (visible piece)).head? ≠ some 91) :
    settingKey piece = if 61 ∈ trim (visible piece) ∧ ownKey (trim (visible piece)) ≠ [] then
      some (ownKey (trim (visible piece))) else none := by
  unfold settingKey
  split
  next heq => exact absurd (by rw [heq]; rfl) h
  next => rfl

theorem headerName_of_head (h : (trim (visible piece)).head? ≠ some 91) :
    headerName piece = none := by
  unfold headerName
  split
  next heq => exact absurd (by rw [heq]; rfl) h
  next => rfl

theorem zero_not_mem_ownKey : 0 ∉ ownKey (trim (visible piece)) := by
  intro hmem
  have hvisible : 0 ∈ visible piece :=
    trim_subset _ (List.takeWhile_subset _ (trim_subset _ hmem))
  rw [visible] at hvisible
  exact absurd (List.mem_takeWhile_imp hvisible) (by decide)

theorem ownKey_trim {text : List UInt8} (h : 61 ∈ text) : ownKey (trim text) = ownKey text := by
  obtain ⟨left, right, rfl, hleft⟩ := List.eq_append_cons_of_mem h
  have hleft' : 61 ∉ left.dropWhile isSpace := fun h => hleft (List.dropWhile_subset isSpace h)
  rw [ownKey, ownKey, trim_append_cons (by decide), takeWhile_ne_append_cons hleft',
    takeWhile_ne_append_cons hleft, trim_dropWhile]

theorem settingKey_eq_some (h : settingKey piece = some key) :
    61 ∈ visible piece ∧ ownKey (visible piece) = key := by
  have hhead : (trim (visible piece)).head? ≠ some 91 := by
    intro hhead
    obtain ⟨p, hp⟩ := List.head?_eq_some_iff.mp hhead
    simp [settingKey, hp] at h
  rw [settingKey_of_head hhead] at h
  split_ifs at h with hcond
  have hmem := trim_subset _ hcond.1
  exact ⟨hmem, (ownKey_trim hmem).symm.trans (Option.some.inj h)⟩

theorem settingKey_of_isPrefix (hstart : piece <+: line) (h : settingKey piece = some key) :
    61 ∈ line ∧ key = ownKey line := by
  obtain ⟨hmem, rfl⟩ := settingKey_eq_some h
  obtain ⟨rest, rfl⟩ := (List.takeWhile_prefix live).trans hstart
  change 61 ∈ visible piece ++ rest ∧ _ = ownKey (visible piece ++ rest)
  obtain ⟨left, right, heq, hleft⟩ := List.eq_append_cons_of_mem hmem
  rw [heq, List.append_assoc, List.cons_append, ownKey, ownKey, takeWhile_ne_append_cons hleft,
    takeWhile_ne_append_cons hleft]
  exact ⟨by simp, rfl⟩

/-- At the beginning of a line, a header makes the line start with `[`. -/
theorem headerName_of_isPrefix (hstart : piece <+: line)
    (hline : (line.dropWhile isSpace).head? ≠ some 91) : headerName piece = none := by
  refine headerName_of_head fun hhead => hline ?_
  obtain ⟨p, hp⟩ := List.head?_eq_some_iff.mp hhead
  obtain ⟨after, hafter⟩ := List.head?_eq_some_iff.mp (head?_dropWhile_of_trim hp)
  obtain ⟨rest, rfl⟩ := (List.takeWhile_prefix live).trans hstart
  change ((visible piece ++ rest).dropWhile isSpace).head? = some 91
  rw [List.dropWhile_append, hafter]
  rfl

/-- What some pieces add to the entries, and the section that they leave. -/
structure Reads (pieces : List (List UInt8)) (st st' : IniParse) : Prop where
  entries : ∃ added, st'.entries = added ++ st.entries ∧
    added.map (fun entry => entry.key.bytes) = (pieces.filterMap settingKey).reverse
  sectionName : st'.sectionName = (pieces.filterMap headerName).getLast?.getD st.sectionName

theorem nvIniLine_reads (st : IniParse) (piece : List UInt8) :
    Reads [piece] st (nvIniLine st piece) := by
  rw [nvIniLine_eq]
  by_cases hhead : (trim (visible piece)).head? = some 91
  · obtain ⟨p, hp⟩ := List.head?_eq_some_iff.mp hhead
    have hkey : settingKey piece = none := by
      simp only [settingKey, hp]
    have hname : headerName piece =
        if 93 ∈ p then some (sectionOf (p.takeWhile (· ≠ 93))) else none := by
      simp only [headerName, hp]
    simp only [hp, nvIniText]
    split_ifs at hname ⊢
    · exact ⟨⟨[], rfl, by simp [hkey]⟩, by simp [hname, sectionOf]⟩
    · exact ⟨⟨[], rfl, by simp [hkey]⟩, by simp [hname]⟩
  · have hname := headerName_of_head hhead
    have hkey := settingKey_of_head hhead
    rw [nvIniText_of_head st hhead]
    by_cases hcond : 61 ∈ trim (visible piece) ∧ ownKey (trim (visible piece)) ≠ []
    · have hbytes : (CString.ofBuffer (ownKey (trim (visible piece)))).bytes =
          ownKey (trim (visible piece)) :=
        List.takeWhile_eq_self_iff.mpr (decide_ne_of_not_mem zero_not_mem_ownKey)
      rw [if_pos hcond] at hkey
      rw [if_pos (by exact hcond)]
      refine ⟨⟨[_], rfl, ?_⟩, by simp [hname, nvIniAddEntry]⟩
      rw [List.filterMap_cons_some hkey]
      exact congrArg (fun key => [key]) hbytes
    · rw [if_neg hcond] at hkey
      rw [if_neg (by exact hcond)]
      exact ⟨⟨[], rfl, by simp [hkey]⟩, by simp [hname]⟩

theorem Reads.append {st'' : IniParse} {pieces later : List (List UInt8)} (h : Reads pieces st st')
    (h' : Reads later st' st'') : Reads (pieces ++ later) st st'' := by
  obtain ⟨added, hentries, hkeys⟩ := h.entries
  obtain ⟨added', hentries', hkeys'⟩ := h'.entries
  constructor
  · refine ⟨added' ++ added, ?_, ?_⟩
    · rw [hentries', hentries, List.append_assoc]
    · rw [List.map_append, hkeys, hkeys', List.filterMap_append, List.reverse_append]
  · rw [h'.sectionName, h.sectionName, List.filterMap_append, List.getLast?_append, Option.getD_or]

theorem foldl_nvIniLine_reads (st : IniParse) (pieces : List (List UInt8)) :
    Reads pieces st (pieces.foldl nvIniLine st) := by
  induction pieces generalizing st with
  | nil => exact ⟨⟨[], rfl, rfl⟩, rfl⟩
  | cons piece pieces ih => exact (nvIniLine_reads st piece).append (ih (nvIniLine st piece))

end Pieces

theorem nvIniLoad_lines (content : List UInt8) :
    nvIniLoad content = (run readLine iniStart (content.splitOn 10)).entries := by
  unfold nvIniLoad
  rw [foldl_fgetsLines_splitOn (by decide) nvIniLine_newline nvIniLine_nil]
  rfl

theorem oneEntry_iff {st st' : IniParse} {line : List UInt8} {keys : List (List UInt8)}
    (h : ∃ added, st'.entries = added ++ st.entries ∧
      added.map (fun entry => entry.key.bytes) = keys.reverse) :
    (st'.entries = st.entries ∨
        ∃ entry, st'.entries = entry :: st.entries ∧ 61 ∈ line ∧ entry.key.bytes = ownKey line) ↔
      keys = [] ∨ 61 ∈ line ∧ keys = [ownKey line] := by
  obtain ⟨added, hentries, hkeys⟩ := h
  rw [hentries]
  refine or_congr ?_ ?_
  · have hempty : keys.reverse = [] ↔ keys = [] := List.reverse_eq_nil_iff
    rw [List.append_left_eq_self, ← hempty, ← hkeys, List.map_eq_nil_iff]
  · constructor
    · rintro ⟨entry, heq, hmem, hkey⟩
      obtain rfl : added = [entry] := List.append_cancel_right heq
      refine ⟨hmem, List.reverse_injective ?_⟩
      rw [← hkeys, ← hkey]
      rfl
    · rintro ⟨hmem, rfl⟩
      obtain ⟨entry, rfl, hkey⟩ := List.map_eq_singleton_iff.mp hkeys
      exact ⟨entry, rfl, hmem, hkey⟩

/-- The first piece of a line stores only what the line may store. -/
theorem keys_iff {line first : List UInt8} {later : List (List UInt8)} (hfirst : first <+: line)
    (hlater : ∀ piece ∈ later, piece ⊆ line) :
    ((first :: later).filterMap settingKey = [] ∨
        61 ∈ line ∧ (first :: later).filterMap settingKey = [ownKey line]) ↔
      later.filterMap settingKey = [] ∨
        settingKey first = none ∧ later.filterMap settingKey = [ownKey line] := by
  cases hkey : settingKey first with
  | some key =>
      obtain ⟨hmem, rfl⟩ := settingKey_of_isPrefix hfirst hkey
      simp [List.filterMap_cons_some hkey, hmem]
  | none =>
      have hmem : later.filterMap settingKey = [ownKey line] → 61 ∈ line := by
        intro heq
        have hown : ownKey line ∈ later.filterMap settingKey := by simp [heq]
        obtain ⟨piece, hpiece, hkey⟩ := List.mem_filterMap.mp hown
        exact hlater piece hpiece (List.takeWhile_subset live (settingKey_eq_some hkey).1)
      rw [List.filterMap_cons_none hkey, and_iff_right_of_imp hmem]
      simp

/-- The first piece of a line opens a section only if the line may. -/
theorem sections_iff {st st' : IniParse} {line first : List UInt8} {later : List (List UInt8)}
    (hreads : Reads (first :: later) st st') (hfirst : first <+: line) :
    (st'.sectionName ≠ st.sectionName → (line.dropWhile isSpace).head? = some 91) ↔
      ((line.dropWhile isSpace).head? = some 91 ∨
        ∀ name ∈ (later.filterMap headerName).getLast?, name = st.sectionName) := by
  by_cases hhead : (line.dropWhile isSpace).head? = some 91
  · exact iff_of_true (fun _ => hhead) (Or.inl hhead)
  · rw [hreads.sectionName, List.filterMap_cons_none (headerName_of_isPrefix hfirst hhead)]
    cases (later.filterMap headerName).getLast? with
    | none => simp
    | some name => simp [hhead]

theorem oneSetting_readLine_iff (st : IniParse) {line : List UInt8} (hline : 10 ∉ line) :
    OneSetting line st (readLine st line) ↔ LaterQuiet st.sectionName line := by
  by_cases hnil : line = []
  · subst hnil
    exact iff_of_true ⟨.inl rfl, fun h => absurd rfl h⟩ ⟨.inl rfl, .inr fun _ h => by cases h⟩
  have hreads : Reads (line.take 1023 :: fgetsLines 1024 (line.drop 1023)) st (readLine st line) := by
    have hpieces := fgetsLines_line (by decide : 2 ≤ 1024) hline hnil
    unfold readLine
    rw [hpieces]
    exact foldl_nvIniLine_reads st _
  have hfirst : line.take 1023 <+: line := List.take_prefix _ _
  have hlater : ∀ piece ∈ fgetsLines 1024 (line.drop 1023), piece ⊆ line := by
    intro piece hpiece b hb
    have hmem : b ∈ line.drop 1023 := by
      rw [← flatten_fgetsLines (by decide : 2 ≤ 1024) (line.drop 1023)]
      exact List.mem_flatten.mpr ⟨piece, hpiece, hb⟩
    exact List.mem_of_mem_drop hmem
  have hentries := (oneEntry_iff hreads.entries).trans (keys_iff hfirst hlater)
  have hheaders := sections_iff hreads hfirst
  exact ⟨fun h => ⟨hentries.mp h.entry, hheaders.mp h.header⟩,
    fun h => ⟨hentries.mpr h.setting, hheaders.mpr h.header⟩⟩

/--
Every file is read line by line.  Each physical line stores at most one entry, whose
key is the trimmed text before its first `=`, and changes the section only if its first
character that is not blank is `[`, exactly if the pieces of each line after the first
1023 bytes are quiet.
-/
theorem nvIniLoad_oneSetting_per_line_iff
    (content : List UInt8) :
    nvIniLoad content = (run readLine iniStart (content.splitOn 10)).entries ∧
      (Along readLine (fun st line => OneSetting line st (readLine st line)) iniStart
          (content.splitOn 10) ↔
        Along readLine (fun st line => LaterQuiet st.sectionName line) iniStart
          (content.splitOn 10)) := by
  refine ⟨nvIniLoad_lines content, ?_⟩
  have hlines : ∀ line ∈ content.splitOn 10, 10 ∉ line := fun _ h => (of_mem_splitOn h).1
  have hstep : ∀ (st : IniParse) line, True → 10 ∉ line →
      (OneSetting line st (readLine st line) ↔ LaterQuiet st.sectionName line) :=
    fun st _ _ hline => oneSetting_readLine_iff st hline
  exact along_iff_along (fun _ _ _ _ _ => trivial) hstep trivial hlines

def longSetting : List UInt8 := 107 :: 61 :: List.replicate 1021 120

/-- The line goes on with a comment, which is a buffer of its own. -/
theorem long_setting_oneSetting :
    Along readLine (fun st line => OneSetting line st (readLine st line)) iniStart
      ((longSetting ++ [59, 61]).splitOn 10) := by
  have hline : 10 ∉ longSetting ++ [59, 61] := by
    simp only [longSetting, List.cons_append, List.mem_cons, List.mem_append, List.mem_replicate,
      not_or]
    decide
  have hlength : longSetting.length = 1023 := by
    rw [longSetting, List.length_cons, List.length_cons, List.length_replicate]
  have hquiet : LaterQuiet CString.empty (longSetting ++ [59, 61]) := by
    have hlater : (longSetting ++ [59, 61]).drop 1023 = [59, 61] := List.drop_left' hlength
    constructor
    · rw [hlater]
      exact .inl (by decide)
    · rw [hlater]
      exact .inr (by decide)
  rw [(nvIniLoad_oneSetting_per_line_iff _).2, List.splitOn_eq_singleton hline]
  exact ⟨hquiet, trivial⟩

/-- A comment of 1023 bytes that goes on. -/
def longComment : List UInt8 := 59 :: List.replicate 1022 120

/-- The line of a file that goes on with the text of a setting. -/
def longLine : List UInt8 := longComment ++ (lit "daemon=1").bytes

theorem newline_not_mem_longLine : 10 ∉ longLine := by
  simp only [longLine, longComment, List.cons_append, List.mem_cons, List.mem_append,
    List.mem_replicate, not_or]
  decide

/-- The comment is the first buffer, and the setting the second. -/
theorem readLine_longLine :
    readLine iniStart longLine = ⟨CString.empty, [⟨CString.empty, lit "daemon", lit "1"⟩]⟩ := by
  have hlength : longComment.length = 1023 := by
    rw [longComment, List.length_cons, List.length_replicate]
  have hpieces : fgetsLines 1024 longLine = longComment :: fgetsLines 1024 (lit "daemon=1").bytes := by
    rw [fgetsLines_line (by decide) newline_not_mem_longLine (List.cons_ne_nil _ _), longLine,
      List.take_left' hlength, List.drop_left' hlength]
  have hcomment : nvIniLine iniStart longComment = iniStart :=
    nvIniLine_comment iniStart [] (List.replicate 1022 120)
  rw [readLine, hpieces, List.foldl_cons, hcomment]
  decide

/-- The end of the comment is stored as a setting, under a key that the line does not have. -/
theorem long_comment_stored :
    nvIniLoad (longLine ++ [10]) = [⟨CString.empty, lit "daemon", lit "1"⟩] ∧
      ¬ Along readLine (fun st line => OneSetting line st (readLine st line)) iniStart
        ((longLine ++ [10]).splitOn 10) := by
  have hsplit : (longLine ++ [10]).splitOn 10 = [longLine, []] :=
    List.splitOn_append_cons_self_of_not_mem newline_not_mem_longLine []
  rw [nvIniLoad_lines, hsplit]
  constructor
  · rw [run_cons, readLine_longLine]
    rfl
  · rintro ⟨hsetting, -⟩
    rw [readLine_longLine] at hsetting
    obtain hentries | ⟨entry, hentries, -, hkey⟩ := hsetting.entry
    · cases hentries
    · -- the text before the `=` begins with the `;`
      have hleft : 61 ∉ longComment ++ (lit "daemon").bytes := by
        simp only [longComment, List.cons_append, List.mem_cons, List.mem_append,
          List.mem_replicate, not_or]
        decide
      have hline : longLine = (longComment ++ (lit "daemon").bytes) ++ 61 :: (lit "1").bytes := by
        rw [List.append_assoc]
        rfl
      obtain rfl := (List.cons.inj hentries).1
      have htrim : trim (longComment ++ (lit "daemon").bytes) =
          59 :: (List.replicate 1022 120 ++ (lit "daemon").bytes).rdropWhile isSpace :=
        trim_append_cons (by decide) [] _
      rw [hline, ownKey, takeWhile_ne_append_cons hleft, htrim] at hkey
      exact absurd (List.cons.inj hkey).1 (by decide)

end Libnv.Ini
