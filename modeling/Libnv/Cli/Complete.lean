import Libnv.Cli.Registry

/-!
# Completion of a command

`nv_core_cli_tab_complete` for a line of any size.  It collects the registered names
that start with the first word of the line, up to 32 of them, and replaces the word by
what they have in common.  Names are compared without regard to case.

The line is put together in buffers of `NV_CORE_CLI_LINE_MAX` bytes, whatever the size
of the line.
-/

namespace Libnv.Cli

open CText Transition Libnv.Core

/-- `a` is a prefix of `b` without regard to case. -/
def CiPrefix (a b : List UInt8) : Prop :=
  a.map toLower <+: b.map toLower

instance (a b : List UInt8) : Decidable (CiPrefix a b) :=
  inferInstanceAs (Decidable (_ <+: _))

/-- The first word of a line, which starts with the line and ends at a blank or a tab. -/
def firstWord (line : List UInt8) : List UInt8 :=
  line.takeWhile fun b => b ≠ 32 ∧ b ≠ 9

def afterWord (line : List UInt8) : List UInt8 :=
  line.dropWhile fun b => b ≠ 32 ∧ b ≠ 9

/-- The commands that have `word` as a prefix. -/
def Matches (cmds : List CliCmd) (word : List UInt8) (cmd : CliCmd) : Prop :=
  cmd ∈ cmds ∧ CiPrefix word cmd.name.bytes

/-- There is one name only, without regard to case. -/
def UniqueMatch (cmds : List CliCmd) (word : List UInt8) : Prop :=
  ∀ a b, Matches cmds word a → Matches cmds word b → equalIgnoreCase a.name b.name = true

/-- The line `line'` of length `len'` is a completion of `line`, with room for `n` bytes. -/
structure Completes (cmds : List CliCmd) (n : Nat) (line line' : CString) (len' : Nat) : Prop where
  extended : CiPrefix (firstWord line.bytes) (firstWord line'.bytes)
  common : ∀ cmd, Matches cmds (firstWord line.bytes) cmd →
    CiPrefix (firstWord line'.bytes) cmd.name.bytes
  longest : ∀ word, (∀ cmd, Matches cmds (firstWord line.bytes) cmd →
    CiPrefix word cmd.name.bytes) → word.length ≤ (firstWord line'.bytes).length
  unique : UniqueMatch cmds (firstWord line.bytes) → afterWord line.bytes = [] →
    afterWord line'.bytes = [32]
  others : ¬ (UniqueMatch cmds (firstWord line.bytes) ∧ afterWord line.bytes = []) →
    afterWord line'.bytes = afterWord line.bytes
  length : len' = line'.length ∧ line'.length < n

/-- The names, each once without regard to case, that are not among `found`. -/
def newNames (found : List CString) : List CString → List CString
  | [] => []
  | name :: names =>
      if nvCliMatchExists found name then newNames found names
      else name :: newNames (found ++ [name]) names

/-- The different names that have `word` as a prefix. -/
def candidates (cmds : List CliCmd) (word : List UInt8) : List CString :=
  newNames [] ((cmds.map CliCmd.name).filter fun name => CiPrefix word name.bytes)

/-- The first 32 of them. -/
def collected (cmds : List CliCmd) (word : List UInt8) : List CString :=
  (candidates cmds word).take 32

/-- The line is put together anew: for one name, or if there is more to the word. -/
def rewrites (found : List CString) (word : List UInt8) : Bool :=
  found.length = 1 ∨ word.length < nvCliMatchesLcp found

/-- What the names have in common, in the spelling of the first. -/
def commonPart : List CString → CString
  | [] => CString.empty
  | first :: others => first.take (nvCliMatchesLcp (first :: others))

/-- The line that is put together, before it is cut to the size of any buffer. -/
def completedLine (cmds : List CliCmd) (line : List UInt8) : List UInt8 :=
  match collected cmds (firstWord line) with
  | [] => line
  | [name] => nvCliBuildCompletedLine name.bytes (afterWord line)
  | first :: others =>
      if (firstWord line).length < nvCliMatchesLcp (first :: others) then
        (first.take (nvCliMatchesLcp (first :: others))).bytes ++ afterWord line
      else line

theorem le_commonPrefix_iff (a b : List UInt8) (k : Nat) :
    k ≤ commonPrefix a b ↔ k ≤ a.length ∧ CiPrefix (a.take k) b := by
  induction a generalizing b k with
  | nil => simp [commonPrefix, CiPrefix]
  | cons x xs ih =>
      cases k with
      | zero => simp [CiPrefix]
      | succ k =>
          cases b with
          | nil => simp [commonPrefix, CiPrefix]
          | cons y ys =>
              simp only [commonPrefix, CiPrefix, List.take_succ_cons, List.map_cons,
                List.cons_prefix_cons, List.length_cons, Nat.add_le_add_iff_right] at ih ⊢
              split_ifs with hxy
              · simp only [hxy, Nat.add_le_add_iff_right, ih, true_and]
              · simp [hxy]

theorem le_foldl_min_iff {α : Type*} (f : α → Nat) (n : Nat) (xs : List α) (k : Nat) :
    k ≤ xs.foldl (fun len x => min (f x) len) n ↔ k ≤ n ∧ ∀ x ∈ xs, k ≤ f x := by
  induction xs generalizing n with
  | nil => simp
  | cons x xs ih =>
      rw [List.foldl_cons, ih, le_min_iff, List.forall_mem_cons]
      tauto

theorem le_nvCliMatchesLcp_iff (first : CString) (others : List CString) (k : Nat) :
    k ≤ nvCliMatchesLcp (first :: others) ↔
      k ≤ first.length ∧ ∀ m ∈ first :: others, CiPrefix (first.take k).bytes m.bytes := by
  have hself : CiPrefix (first.take k).bytes first.bytes :=
    (List.take_prefix k first.bytes).map toLower
  rw [nvCliMatchesLcp, le_foldl_min_iff, List.forall_mem_cons]
  simp only [nvCliStrCommonPrefix, le_commonPrefix_iff]
  constructor
  · rintro ⟨hk, hall⟩
    exact ⟨hk, hself, fun m hm => (hall m hm).2⟩
  · rintro ⟨hk, -, hall⟩
    exact ⟨hk, fun m hm => ⟨hk, hall m hm⟩⟩

section Candidates

variable {cmds : List CliCmd} {word : List UInt8} {found names : List CString} {line name : CString}

theorem nvCliMatchExists_iff :
    nvCliMatchExists found name = true ↔ ∃ m ∈ found, folded m = folded name := by
  simp only [nvCliMatchExists, List.any_eq_true, equalIgnoreCase_iff]

theorem subset_of_newNames : newNames found names ⊆ names := by
  induction names generalizing found with
  | nil => exact List.Subset.refl _
  | cons name names ih =>
      rw [newNames]
      split_ifs
      · exact List.subset_cons_of_subset name ih
      · exact List.cons_subset_cons name ih

/-- Every name is among those found, or is new. -/
theorem exists_of_mem_names (found : List CString) (h : name ∈ names) :
    ∃ m ∈ found ++ newNames found names, folded m = folded name := by
  induction names generalizing found with
  | nil => cases h
  | cons other names ih =>
      rw [newNames]
      split_ifs with hexists
      · rcases List.mem_cons.mp h with rfl | h
        · obtain ⟨m, hm, heq⟩ := nvCliMatchExists_iff.mp hexists
          exact ⟨m, List.mem_append_left _ hm, heq⟩
        · exact ih found h
      · rw [List.append_cons]
        rcases List.mem_cons.mp h with rfl | h
        · exact ⟨name, by simp, rfl⟩
        · exact ih (found ++ [other]) h

theorem nodup_newNames (names : List CString) (h : (found.map folded).Nodup) :
    ((found ++ newNames found names).map folded).Nodup := by
  induction names generalizing found with
  | nil => simpa [newNames] using h
  | cons name names ih =>
      rw [newNames]
      split_ifs with hexists
      · exact ih h
      · rw [List.append_cons]
        apply ih
        rw [List.map_append, List.map_singleton, List.nodup_append]
        refine ⟨h, List.nodup_singleton _, ?_⟩
        intro key hkey key' hkey' heq
        obtain ⟨m, hm, rfl⟩ := List.mem_map.mp hkey
        obtain rfl := List.mem_singleton.mp hkey'
        exact hexists (nvCliMatchExists_iff.mpr ⟨m, hm, heq⟩)

theorem mem_candidates (h : name ∈ candidates cmds word) :
    ∃ cmd, Matches cmds word cmd ∧ cmd.name = name := by
  obtain ⟨hname, hprefix⟩ := List.mem_filter.mp (subset_of_newNames h)
  obtain ⟨cmd, hcmd, rfl⟩ := List.mem_map.mp hname
  exact ⟨cmd, ⟨hcmd, of_decide_eq_true hprefix⟩, rfl⟩

theorem exists_candidate {cmd : CliCmd} (h : Matches cmds word cmd) :
    ∃ name ∈ candidates cmds word, folded name = folded cmd.name := by
  have hmem : cmd.name ∈ (cmds.map CliCmd.name).filter fun name => CiPrefix word name.bytes :=
    List.mem_filter.mpr ⟨List.mem_map.mpr ⟨cmd, h.1, rfl⟩, decide_eq_true h.2⟩
  exact exists_of_mem_names [] hmem

theorem forall_candidates_iff {word' : List UInt8} :
    (∀ name ∈ candidates cmds word, CiPrefix word' name.bytes) ↔
      ∀ cmd, Matches cmds word cmd → CiPrefix word' cmd.name.bytes := by
  constructor
  · intro hall cmd hcmd
    obtain ⟨name, hname, heq⟩ := exists_candidate hcmd
    have hprefix : word'.map toLower <+: folded name := hall name hname
    rwa [heq] at hprefix
  · intro hall name hname
    obtain ⟨cmd, hcmd, rfl⟩ := mem_candidates hname
    exact hall cmd hcmd

theorem nodup_candidates (cmds : List CliCmd) (word : List UInt8) :
    ((candidates cmds word).map folded).Nodup := by
  have hnil : (([] : List CString).map folded).Nodup := List.nodup_nil
  exact nodup_newNames _ hnil

theorem uniqueMatch_iff {first : CString} {others : List CString}
    (h : candidates cmds word = first :: others) : UniqueMatch cmds word ↔ others = [] := by
  have hnodup := nodup_candidates cmds word
  constructor
  · intro hunique
    rw [List.eq_nil_iff_forall_not_mem]
    intro other hother
    obtain ⟨a, ha, rfl⟩ := mem_candidates (h ▸ List.mem_cons_self : first ∈ candidates cmds word)
    obtain ⟨b, hb, rfl⟩ :=
      mem_candidates (h ▸ List.mem_cons_of_mem _ hother : other ∈ candidates cmds word)
    rw [h, List.map_cons, List.nodup_cons] at hnodup
    apply hnodup.1
    rw [equalIgnoreCase_iff.mp (hunique a b ha hb)]
    exact List.mem_map.mpr ⟨b.name, hother, rfl⟩
  · rintro rfl a b ha hb
    obtain ⟨m, hm, hma⟩ := exists_candidate ha
    obtain ⟨m', hm', hmb⟩ := exists_candidate hb
    rw [h] at hm hm'
    obtain rfl := List.mem_singleton.mp hm
    obtain rfl := List.mem_singleton.mp hm'
    exact equalIgnoreCase_iff.mpr (hma.symm.trans hmb)

/-- The commands whose name starts with the first `|word|` bytes of the line. -/
theorem equalIgnoreCaseN_iff (h : word <+: line.bytes) :
    equalIgnoreCaseN name line word.length = true ↔ CiPrefix word name.bytes := by
  rw [equalIgnoreCaseN, equalIgnoreCase_iff, CiPrefix, List.prefix_iff_eq_take, List.length_map,
    ← List.map_take, folded, folded, CString.take_bytes, CString.take_bytes,
    ← List.prefix_iff_eq_take.mp h]
  exact eq_comm

/-- The loop stops at 32 names. -/
theorem foldl_collect (hword : word <+: line.bytes) (hne : word ≠ []) (hfound : found.length ≤ 32) :
    cmds.foldl (tabStep line word.length) found =
    found ++ (newNames found
      ((cmds.map CliCmd.name).filter fun name => CiPrefix word name.bytes)).take
        (32 - found.length) := by
  have hlen : word.length ≠ 0 := fun h => hne (List.eq_nil_of_length_eq_zero h)
  induction cmds generalizing found with
  | nil => simp [newNames]
  | cons cmd rest ih =>
      rw [List.foldl_cons, List.map_cons, List.filter_cons]
      simp only [tabStep, hlen, equalIgnoreCaseN_iff hword, false_or] at ih ⊢
      by_cases hmatch : CiPrefix word cmd.name.bytes
      · simp only [hmatch, true_and, decide_true, if_true, newNames]
        by_cases hexists : nvCliMatchExists found cmd.name = true
        · simp only [hexists, not_true_eq_false, and_false, if_false, if_true]
          exact ih hfound
        · simp only [hexists, not_false_eq_true, and_true, Bool.false_eq_true, if_false]
          rcases Nat.lt_or_eq_of_le hfound with hlt | hfull
          · rw [if_pos hlt, ih (by simp; omega)]
            obtain ⟨k, hk⟩ : ∃ k, 32 - found.length = k + 1 := ⟨31 - found.length, by omega⟩
            have hk' : 32 - (found ++ [cmd.name]).length = k := by
              rw [List.length_append, List.length_singleton]
              omega
            rw [hk, hk', List.take_succ_cons, List.append_assoc, List.singleton_append]
          · rw [if_neg (by omega), ih hfound, hfull]
            simp
      · simp only [hmatch, false_and, and_false, if_false, decide_false, Bool.false_eq_true]
        exact ih hfound

theorem tabMatches_eq (hword : word <+: line.bytes) (hne : word ≠ []) :
    tabMatches cmds line word.length = collected cmds word :=
  foldl_collect hword hne (Nat.zero_le _)

end Candidates

section Line

variable {n : Nat} {line : CBuffer n} {text : CString}
variable {after : List UInt8} {first : CString} {others : List CString}

theorem firstWord_append_afterWord (line : List UInt8) : firstWord line ++ afterWord line = line :=
  List.takeWhile_append_dropWhile

theorem firstWord_isPrefix (line : List UInt8) : firstWord line <+: line :=
  List.takeWhile_prefix _

theorem drop_firstWord (line : List UInt8) : line.drop (firstWord line).length = afterWord line :=
  calc
    line.drop (firstWord line).length
        = (firstWord line ++ afterWord line).drop (firstWord line).length := by
          rw [firstWord_append_afterWord]
    _ = afterWord line := List.drop_left

def StartsBlank (after : List UInt8) : Prop :=
  ∀ b ∈ after.head?, decide (b ≠ 32 ∧ b ≠ 9) = false

theorem startsBlank_afterWord (line : List UInt8) : StartsBlank (afterWord line) := by
  intro b h
  have hstop := List.head?_dropWhile_not (fun b : UInt8 => decide (b ≠ 32 ∧ b ≠ 9)) line
  rw [afterWord] at h
  rw [h] at hstop
  exact hstop

theorem StartsBlank.take (h : StartsBlank after) (k : Nat) : StartsBlank (after.take k) := by
  intro b hb
  rw [List.head?_take] at hb
  split_ifs at hb
  · cases hb
  · exact h b hb

theorem poke_line (htext : line.toList.take text.length = text.bytes) (hlen : text.length < n) :
    ∃ rest, (line.poke text.length 0).toList = text.bytes ++ 0 :: rest := by
  have hlt : text.length < line.toList.length := by rwa [Vector.length_toList]
  have hsplit : line.toList = text.bytes ++ line.toList[text.length] ::
      line.toList.drop (text.length + 1) := by
    rw [← htext, List.getElem_cons_drop, List.take_append_drop]
  exact ⟨_, CBuffer.poke_append hsplit 0⟩

theorem text_putLine (hn : 0 < n) (line : CBuffer n) {newLine : List UInt8}
    (hnul : 0 ∉ newLine) :
    (putLine line newLine).1.text.bytes = (newLine.take (lineMax - 1)).take (n - 1) := by
  have hcut : (CString.ofBuffer (newLine.take (lineMax - 1))).bytes = newLine.take (lineMax - 1) :=
    List.takeWhile_eq_self_iff.mpr (decide_ne_of_not_mem fun h => hnul (List.mem_of_mem_take h))
  rw [putLine, CBuffer.text_strncpy_poke _ _ (Nat.sub_lt hn Nat.one_pos), CString.take_bytes, hcut]

def behindWord (found : List CString) (after : List UInt8) : List UInt8 :=
  if found.length = 1 ∧ after = [] then [32] else after

theorem nvCliBuildCompletedLine_eq (name : CString) (h : StartsBlank after) :
    nvCliBuildCompletedLine name.bytes after = name.bytes ++ behindWord [name] after := by
  cases after with
  | nil => rfl
  | cons b rest =>
      have hb : b = 32 ∨ b = 9 := by
        by_contra hne
        exact absurd (decide_eq_true (not_or.mp hne)) (by rw [h b rfl]; exact Bool.false_ne_true)
      simp only [nvCliBuildCompletedLine, if_pos hb, behindWord, List.cons_ne_nil, and_false,
        if_false]

/-- The line that is put together is the common prefix and what stands behind the word. -/
theorem completedLine_eq {cmds : List CliCmd} {line : List UInt8}
    (h : collected cmds (firstWord line) = first :: others)
    (hrewrites : rewrites (first :: others) (firstWord line) = true) :
    completedLine cmds line =
      (first.take (nvCliMatchesLcp (first :: others))).bytes ++
        behindWord (first :: others) (afterWord line) := by
  rw [completedLine, h]
  cases others with
  | nil =>
      have htake : first.take (nvCliMatchesLcp [first]) = first :=
        CString.take_eq_self (Nat.le_refl _)
      rw [htake]
      exact nvCliBuildCompletedLine_eq first (startsBlank_afterWord line)
  | cons second others =>
      have hmore := (of_decide_eq_true hrewrites).resolve_left (by simp)
      simp only [if_pos hmore, behindWord, List.length_cons]
      rw [if_neg (by simp)]

theorem nul_not_mem_completed (first : CString) (k : Nat) (found : List CString) (text : CString) :
    0 ∉ (first.take k).bytes ++ behindWord found (afterWord text.bytes) := by
  rw [List.mem_append, not_or]
  refine ⟨(first.take k).nulFree, ?_⟩
  unfold behindWord
  split_ifs
  · decide
  · exact fun hmem => text.nulFree ((List.dropWhile_suffix _).subset hmem)

theorem tail_eq {rest : List UInt8} (hline : line.toList = text.bytes ++ 0 :: rest) :
    (if text.length > (firstWord text.bytes).length then
        ((CString.ofBuffer (line.toList.drop (firstWord text.bytes).length)).take
          (lineMax - 1)).bytes
      else []) = (afterWord text.bytes).take (lineMax - 1) := by
  have hle : (firstWord text.bytes).length ≤ text.bytes.length := (firstWord_isPrefix _).length_le
  have hdrop := drop_firstWord text.bytes
  split_ifs with hlt
  · have hafter : CString.ofBuffer (line.toList.drop (firstWord text.bytes).length) =
        ⟨afterWord text.bytes, fun h => text.nulFree ((List.dropWhile_suffix _).subset h)⟩ := by
      rw [hline, List.drop_append_of_le_length hle, hdrop]
      exact CString.ofBuffer_append_nul ⟨afterWord text.bytes, _⟩ rest
    rw [hafter, CString.take_bytes]
  · have hnil : afterWord text.bytes = [] := by
      rw [← hdrop]
      exact List.drop_eq_nil_of_le (Nat.not_lt.mp hlt)
    rw [hnil, List.take_nil]

/-- Cutting the tail first makes no difference. -/
theorem take_append_take (xs ys : List UInt8) (k : Nat) :
    (xs ++ ys.take k).take k = (xs ++ ys).take k := by
  rw [List.take_append, List.take_append, List.take_take, Nat.min_eq_left (Nat.sub_le k _)]

theorem behindWord_take (found : List CString) (after : List UInt8) :
    behindWord found (after.take (lineMax - 1)) = (behindWord found after).take (lineMax - 1) := by
  have hnil : after.take (lineMax - 1) = [] ↔ after = [] := by simp
  unfold behindWord
  simp only [hnil]
  split_ifs <;> rfl

/-- The two cuts to 511 bytes are one. -/
theorem text_putLine_completed
    (hn : 0 < n) (line : CBuffer n) (first : CString) (k : Nat) (found : List CString)
    (text : CString) :
    (putLine line ((first.take k).bytes ++
        behindWord found ((afterWord text.bytes).take (lineMax - 1)))).1.text.bytes =
      (((first.take k).bytes ++ behindWord found (afterWord text.bytes)).take
        (lineMax - 1)).take (n - 1) := by
  have hnul := nul_not_mem_completed first k found text
  rw [List.mem_append, not_or] at hnul
  rw [behindWord_take, text_putLine hn, take_append_take]
  rw [List.mem_append, not_or]
  exact ⟨hnul.1, fun h => hnul.2 (List.mem_of_mem_take h)⟩

theorem text_nvCoreCliTabComplete {cmds : List CliCmd} {fd : Int} (hfd : 0 ≤ fd)
    (htext : line.toList.take text.length = text.bytes) (hlen : text.length < n)
    (hword : firstWord text.bytes ≠ [])
    (h : collected cmds (firstWord text.bytes) = first :: others) :
    (nvCoreCliTabComplete cmds fd line text.length).line.text.bytes =
        (if rewrites (first :: others) (firstWord text.bytes) then
          ((completedLine cmds text.bytes).take (lineMax - 1)).take (n - 1)
        else text.bytes) ∧
      (nvCoreCliTabComplete cmds fd line text.length).lineLen =
        (nvCoreCliTabComplete cmds fd line text.length).line.text.length := by
  obtain ⟨rest, hline⟩ := poke_line htext hlen
  have hpoked : (line.poke text.length 0).text = text := by
    rw [CBuffer.text, hline]
    exact CString.ofBuffer_append_nul text rest
  have hwordLen : nvCliFirstWordLen (line.poke text.length 0).toList text.length =
      (firstWord text.bytes).length := by
    rw [nvCliFirstWordLen, hline, CString.length, List.take_left, firstWord]
  have hfound := (tabMatches_eq (firstWord_isPrefix text.bytes) hword).trans h
  have hpos : 0 < (firstWord text.bytes).length := List.length_pos_iff.mpr hword
  have hsize : ¬ (n < 2 ∨ fd < 0) := by
    have hle : (firstWord text.bytes).length ≤ text.length := (firstWord_isPrefix _).length_le
    omega
  have hn : 0 < n := Nat.zero_lt_of_lt hlen
  unfold nvCoreCliTabComplete
  rw [if_neg hsize]
  simp only [hpoked, hwordLen, hfound, tail_eq hline]
  have hput := text_putLine_completed hn (line.poke text.length 0) first
    (nvCliMatchesLcp (first :: others)) (first :: others) text
  cases others with
  | nil =>
      have hhead : StartsBlank ((afterWord text.bytes).take (lineMax - 1)) :=
        (startsBlank_afterWord text.bytes).take (lineMax - 1)
      have hwhole : first.take (nvCliMatchesLcp [first]) = first :=
        CString.take_eq_self (Nat.le_refl _)
      have hrewrites : rewrites [first] (firstWord text.bytes) = true :=
        decide_eq_true (Or.inl rfl)
      rw [if_pos hrewrites, completedLine_eq h hrewrites]
      refine ⟨?_, rfl⟩
      rw [hwhole] at hput ⊢
      rw [← hput, ← nvCliBuildCompletedLine_eq first hhead]
  | cons second others =>
      have hbehind (after : List UInt8) : behindWord (first :: second :: others) after = after :=
        if_neg fun hone => absurd hone.1 (by simp)
      simp only [hbehind] at hput
      by_cases hmore : (firstWord text.bytes).length < nvCliMatchesLcp (first :: second :: others)
      · have hrewrites : rewrites (first :: second :: others) (firstWord text.bytes) = true :=
          decide_eq_true (Or.inr hmore)
        rw [if_pos hrewrites, completedLine_eq h hrewrites, hbehind, ← hput]
        simp only [gt_iff_lt, if_pos hmore]
        exact ⟨trivial, rfl⟩
      · have hrewrites : ¬ rewrites (first :: second :: others) (firstWord text.bytes) = true := by
          intro hrewrites
          exact hmore ((of_decide_eq_true hrewrites).resolve_left (by simp))
        rw [if_neg hrewrites]
        simp only [gt_iff_lt, if_neg hmore]
        exact ⟨congrArg CString.bytes hpoked, congrArg CString.length hpoked.symm⟩

end Line

section Results

variable {cmds : List CliCmd} {word : List UInt8} {first : CString} {rest : List CString}

/-- A common prefix is not longer than the longest one. -/
theorem length_le_nvCliMatchesLcp {word : List UInt8} {others : List CString}
    (h : ∀ m ∈ first :: others, CiPrefix word m.bytes) :
    word.length ≤ nvCliMatchesLcp (first :: others) := by
  have hfirst := List.prefix_iff_eq_take.mp (h first List.mem_cons_self)
  have htake : word.map toLower = (first.take word.length).bytes.map toLower := by
    rwa [List.length_map, ← List.map_take] at hfirst
  rw [le_nvCliMatchesLcp_iff]
  constructor
  · have hlen := (h first List.mem_cons_self).length_le
    rwa [List.length_map, List.length_map] at hlen
  · intro m hm
    rw [CiPrefix, ← htake]
    exact h m hm

/-- The first bytes of the first name are common to all, up to the longest common prefix. -/
theorem length_take_nvCliMatchesLcp (first : CString) (others : List CString) :
    (first.take (nvCliMatchesLcp (first :: others))).bytes.length =
      nvCliMatchesLcp (first :: others) := by
  have hle := ((le_nvCliMatchesLcp_iff first others _).mp (Nat.le_refl _)).1
  rw [CString.take_bytes, List.length_take]
  exact Nat.min_eq_left hle

/-- All names have at most as much in common as the first 32 of them. -/
theorem nvCliMatchesLcp_le_take (first : CString) (rest : List CString) (k : Nat) :
    nvCliMatchesLcp (first :: rest) ≤ nvCliMatchesLcp (first :: rest.take k) := by
  rw [le_nvCliMatchesLcp_iff]
  obtain ⟨hle, hall⟩ := (le_nvCliMatchesLcp_iff first rest _).mp (Nat.le_refl _)
  refine ⟨hle, fun m hm => hall m ?_⟩
  exact List.cons_subset_cons first (List.take_subset k rest) hm

section Candidates

variable (h : candidates cmds word = first :: rest)
include h

theorem forall_mem_candidates : ∀ m ∈ first :: rest, CiPrefix word m.bytes := by
  intro m hm
  rw [← h] at hm
  obtain ⟨cmd, hcmd, rfl⟩ := mem_candidates hm
  exact hcmd.2

theorem collected_eq : collected cmds word = first :: rest.take 31 := by
  rw [collected, h, List.take_succ_cons]

theorem longest_common_iff {start : List UInt8} (hstart : start <+: first.bytes) :
    ((∀ cmd, Matches cmds word cmd → CiPrefix start cmd.name.bytes) ∧
        ∀ word', (∀ cmd, Matches cmds word cmd → CiPrefix word' cmd.name.bytes) →
          word'.length ≤ start.length) ↔
      start.length = nvCliMatchesLcp (first :: rest) := by
  have hlongest := ((le_nvCliMatchesLcp_iff first rest _).mp (Nat.le_refl _)).2
  simp only [← forall_candidates_iff, h]
  constructor
  · rintro ⟨hall, hmax⟩
    have hle := hmax _ hlongest
    rw [length_take_nvCliMatchesLcp] at hle
    exact Nat.le_antisymm (length_le_nvCliMatchesLcp hall) hle
  · intro hlen
    have heq : start = (first.take (nvCliMatchesLcp (first :: rest))).bytes := by
      rw [CString.take_bytes, ← hlen]
      exact List.prefix_iff_eq_take.mp hstart
    refine ⟨heq ▸ hlongest, fun word' hword' => ?_⟩
    rw [hlen]
    exact length_le_nvCliMatchesLcp hword'

/-- No common prefix is longer than what the first 32 names have in common. -/
theorem longest_le {word' : List UInt8}
    (hcommon : ∀ cmd, Matches cmds word cmd → CiPrefix word' cmd.name.bytes) :
    word'.length ≤ nvCliMatchesLcp (first :: rest.take 31) := by
  rw [← forall_candidates_iff, h] at hcommon
  exact (length_le_nvCliMatchesLcp hcommon).trans (nvCliMatchesLcp_le_take first rest 31)

theorem word_le : word.length ≤ nvCliMatchesLcp (first :: rest.take 31) :=
  longest_le h fun _ hcmd => hcmd.2

theorem ciPrefix_take_lcp :
    CiPrefix word (first.take (nvCliMatchesLcp (first :: rest.take 31))).bytes := by
  have hfirst := forall_mem_candidates h first List.mem_cons_self
  rw [CiPrefix, CString.take_bytes, List.map_take, List.prefix_take_iff, List.length_map]
  exact ⟨hfirst, word_le h⟩

theorem eq_behindWord_iff (after after' : List UInt8) :
    (UniqueMatch cmds word → after = [] → after' = [32]) ∧
        (¬ (UniqueMatch cmds word ∧ after = []) → after' = after) ↔
      after' = behindWord (first :: rest.take 31) after := by
  have hone : UniqueMatch cmds word ↔ (first :: rest.take 31).length = 1 := by
    rw [uniqueMatch_iff h]
    simp
  unfold behindWord
  rw [hone]
  split_ifs with hcond
  · constructor
    · rintro ⟨hunique, -⟩
      exact hunique hcond.1 hcond.2
    · intro heq
      exact ⟨fun _ _ => heq, fun hnot => absurd hcond hnot⟩
  · constructor
    · rintro ⟨-, hothers⟩
      exact hothers hcond
    · intro heq
      exact ⟨fun hlen hnil => absurd ⟨hlen, hnil⟩ hcond, fun _ => heq⟩

end Candidates

/-- A line that is put together from a word without blanks and what stands behind it, and cut. -/
theorem words_of_take
    {word after : List UInt8} (hword : ∀ b ∈ word, b ≠ 32 ∧ b ≠ 9) (hafter : StartsBlank after)
    {k : Nat} (hle : word.length ≤ k) :
    firstWord ((word ++ after).take k) = word ∧
      afterWord ((word ++ after).take k) = after.take (k - word.length) := by
  have hall : ∀ b ∈ word, decide (b ≠ 32 ∧ b ≠ 9) = true := fun b hb => decide_eq_true (hword b hb)
  rw [List.take_append, List.take_of_length_le hle]
  exact ⟨takeWhile_append_of_head _ hall (hafter.take _),
    dropWhile_append_of_head _ hall (hafter.take _)⟩

theorem not_blank_of_mem_firstWord {line : List UInt8} : ∀ b ∈ firstWord line, b ≠ 32 ∧ b ≠ 9 := by
  intro b hb
  rw [firstWord] at hb
  exact of_decide_eq_true (List.mem_takeWhile_imp hb :)

theorem firstWord_eq_self {word : List UInt8} (h : ∀ b ∈ word, b ≠ 32 ∧ b ≠ 9) :
    firstWord word = word :=
  List.takeWhile_eq_self_iff.mpr fun b hb => decide_eq_true (h b hb)

theorem StartsBlank.append {after after' : List UInt8} (h : StartsBlank after)
    (h' : StartsBlank after') : StartsBlank (after ++ after') := by
  cases after with
  | nil => exact h'
  | cons b after => exact h

theorem startsBlank_behindWord (found : List CString) {after : List UInt8} (h : StartsBlank after) :
    StartsBlank (behindWord found after) := by
  intro b hb
  unfold behindWord at hb
  split_ifs at hb
  · obtain rfl : 32 = b := Option.some.inj hb
    decide
  · exact h b hb

variable {n : Nat} {text line' : CString}

theorem completes_of_unchanged (h : candidates cmds (firstWord text.bytes) = first :: rest)
    (hlen : text.length < n)
    (hrewrites : ¬ rewrites (first :: rest.take 31) (firstWord text.bytes) = true)
    (hline : line'.bytes = text.bytes) :
    Completes cmds n text line' line'.length := by
  obtain rfl : line' = text := CString.ext hline
  have hnot := not_or.mp (mt decide_eq_true hrewrites)
  have hlcp : nvCliMatchesLcp (first :: rest.take 31) = (firstWord line'.bytes).length :=
    Nat.le_antisymm (Nat.not_lt.mp hnot.2) (word_le h)
  have hbehind : afterWord line'.bytes = behindWord (first :: rest.take 31) (afterWord line'.bytes) :=
    (if_neg fun hone => hnot.1 hone.1).symm
  obtain ⟨hunique, hothers⟩ := (eq_behindWord_iff h _ _).mpr hbehind
  exact {
    extended := List.prefix_refl _
    common := fun _ hcmd => hcmd.2
    longest := fun word hcommon => hlcp ▸ longest_le h hcommon
    unique := hunique
    others := hothers
    length := ⟨rfl, hlen⟩ }

/--
A line that is put together anew, and cut to 511 bytes.  The new first word is what the
names have in common, up to a blank in it.
-/
theorem completes_iff_of_rewritten (h : candidates cmds (firstWord text.bytes) = first :: rest)
    (hshort : first.length ≤ 31) {common newLine behind : List UInt8}
    (hcommon : common = (first.take (nvCliMatchesLcp (first :: rest.take 31))).bytes)
    (hbehind : behind = behindWord (first :: rest.take 31) (afterWord text.bytes))
    (hnew : newLine = common ++ behind)
    (hfits : newLine.length < n)
    (hline : line'.bytes = newLine.take (lineMax - 1)) :
    Completes cmds n text line' line'.length ↔
      (firstWord common).length = nvCliMatchesLcp (first :: rest) ∧
        newLine.take (lineMax - 1) = firstWord common ++ behind := by
  have hstart : firstWord common <+: first.bytes := by
    rw [hcommon]
    exact (firstWord_isPrefix _).trans (List.take_prefix _ _)
  have hroom : (firstWord common).length ≤ lineMax - 1 :=
    hstart.length_le.trans (hshort.trans (by decide))
  have hblank : StartsBlank (afterWord common ++ behind) := by
    rw [hbehind]
    exact (startsBlank_afterWord common).append
      (startsBlank_behindWord _ (startsBlank_afterWord text.bytes))
  have hsplit : newLine = firstWord common ++ (afterWord common ++ behind) := by
    rw [hnew, ← List.append_assoc, firstWord_append_afterWord]
  obtain ⟨hfirst, -⟩ := words_of_take not_blank_of_mem_firstWord hblank hroom
  rw [← hsplit, ← hline] at hfirst
  have hwords : newLine.take (lineMax - 1) = firstWord common ++ afterWord line'.bytes := by
    rw [← hline, ← hfirst, firstWord_append_afterWord]
  have hafter : newLine.take (lineMax - 1) = firstWord common ++ behind ↔
      afterWord line'.bytes = behind := by
    rw [hwords]
    exact List.append_right_inj _
  rw [← longest_common_iff h hstart, hafter, hbehind, ← eq_behindWord_iff h]
  constructor
  · rintro ⟨-, hall, hmax, hunique, hothers, -⟩
    rw [hfirst] at hall hmax
    exact ⟨⟨hall, hmax⟩, hunique, hothers⟩
  · rintro ⟨⟨hall, hmax⟩, hunique, hothers⟩
    have hword : CiPrefix (firstWord text.bytes) (firstWord common) := by
      have hwhole := ciPrefix_take_lcp h
      rw [← hcommon] at hwhole
      refine List.prefix_of_prefix_length_le hwhole ((firstWord_isPrefix common).map toLower) ?_
      rw [List.length_map, List.length_map]
      exact hmax _ fun cmd hcmd => hcmd.2
    refine ⟨hfirst ▸ hword, hfirst ▸ hall, hfirst ▸ hmax, hunique, hothers, rfl, ?_⟩
    rw [CString.length, hline]
    exact Nat.lt_of_le_of_lt (List.take_prefix _ _).length_le hfits

end Results

/--
What the collected names have in common has a blank in it, all names have in common what
stands before the blank, and cutting the line to 511 bytes takes the rest away again.
-/
def CutBack (cmds : List CliCmd) (line : List UInt8) : Prop :=
  let found := collected cmds (firstWord line)
  let word := firstWord (commonPart found).bytes
  word ≠ (commonPart found).bytes ∧
    word.length = nvCliMatchesLcp (candidates cmds (firstWord line)) ∧
    (completedLine cmds line).take 511 = word ++ behindWord found (afterWord line)

/--
For all commands, and all lines of fewer than `n` bytes whose first word starts some
command: if the line that `nv_core_cli_tab_complete` puts together has fewer than `n`
bytes, then it leaves a completion exactly if, in case it puts one together, the first
32 different names have no more in common than all of them, there is no blank in it,
and the line has at most 511 bytes; or the cut undoes what is wrong.
-/
theorem nvCoreCliTabComplete_completes_iff
    {n : Nat}
    (cmds : List CliCmd)
    (hnames : ∀ cmd ∈ cmds, cmd.name.length ≤ 31)
    (fd : Int)
    (hfd : 0 ≤ fd)
    (line : CBuffer n)
    (text : CString)
    (htext : line.toList.take text.length = text.bytes)
    (hlen : text.length < n)
    (hword : firstWord text.bytes ≠ [])
    (hmatch : ∃ cmd, Matches cmds (firstWord text.bytes) cmd)
    (hfits : (completedLine cmds text.bytes).length ≤ n - 1) :
    Completes cmds n text (nvCoreCliTabComplete cmds fd line text.length).line.text
        (nvCoreCliTabComplete cmds fd line text.length).lineLen ↔
      (rewrites (collected cmds (firstWord text.bytes)) (firstWord text.bytes) = true →
        (nvCliMatchesLcp (collected cmds (firstWord text.bytes)) =
            nvCliMatchesLcp (candidates cmds (firstWord text.bytes)) ∧
          (∀ b ∈ (commonPart (collected cmds (firstWord text.bytes))).bytes, b ≠ 32 ∧ b ≠ 9) ∧
          (completedLine cmds text.bytes).length ≤ 511) ∨
        CutBack cmds text.bytes) := by
  obtain ⟨first, rest, h⟩ : ∃ first rest,
      candidates cmds (firstWord text.bytes) = first :: rest := by
    obtain ⟨cmd, hcmd⟩ := hmatch
    obtain ⟨name, hname, -⟩ := exists_candidate hcmd
    exact List.exists_cons_of_ne_nil (List.ne_nil_of_mem hname)
  have hcollected := collected_eq h
  obtain ⟨hbytes, hlineLen⟩ := text_nvCoreCliTabComplete hfd htext hlen hword hcollected
  rw [hlineLen]
  by_cases hrewrites : rewrites (first :: rest.take 31) (firstWord text.bytes) = true
  · have hsmall : (completedLine cmds text.bytes).length < n := by omega
    have hcut : ((completedLine cmds text.bytes).take (lineMax - 1)).take (n - 1) =
        (completedLine cmds text.bytes).take (lineMax - 1) :=
      List.take_of_length_le ((List.take_prefix _ _).length_le.trans hfits)
    rw [if_pos hrewrites, hcut] at hbytes
    obtain ⟨cmd, hcmd, rfl⟩ := mem_candidates (h ▸ List.mem_cons_self)
    have hnew := completedLine_eq hcollected hrewrites
    rw [completes_iff_of_rewritten h (hnames cmd hcmd.1) rfl rfl hnew hsmall hbytes, CutBack,
      hcollected, h, imp_iff_right hrewrites, commonPart]
    have hlcp := length_take_nvCliMatchesLcp cmd.name (rest.take 31)
    generalize (cmd.name.take (nvCliMatchesLcp (cmd.name :: rest.take 31))).bytes = common
      at hnew hlcp ⊢
    rw [← hlcp]
    -- a blank in `common` decides which of the two cases it is
    by_cases hblank : ∀ b ∈ common, b ≠ 32 ∧ b ≠ 9
    · have hwhole : (completedLine cmds text.bytes).take (lineMax - 1) = completedLine cmds text.bytes ↔
          (completedLine cmds text.bytes).length ≤ 511 := List.take_eq_self_iff _
      rw [firstWord_eq_self hblank, ← hnew, hwhole]
      simp only [ne_self_iff_false, false_and, or_false, and_iff_right hblank]
    · have hcut : firstWord common ≠ common := by
        intro heq
        rw [← heq] at hblank
        exact hblank not_blank_of_mem_firstWord
      simp only [hblank, false_and, and_false, false_or, ne_eq, hcut, not_false_eq_true, true_and]
      rfl
  · rw [if_neg hrewrites] at hbytes
    rw [hcollected]
    exact iff_of_true (completes_of_unchanged h hlen hrewrites hbytes)
      fun hnot => absurd hnot hrewrites

/-- The built-in commands have `stat` in common, and this is put into the line. -/
theorem nvCoreCliTabComplete_completes_stat :
    let line := (CBuffer.zero 16).fill (lit "sta x").bytes
    let done := nvCoreCliTabComplete (registeredCmds [.init]) 0 line 5
    done.line.text = lit "stat x" ∧
      Completes (registeredCmds [.init]) 16 (lit "sta x") done.line.text done.lineLen := by
  have hmatch : ∃ cmd ∈ registeredCmds [.init], CiPrefix (firstWord (lit "sta x").bytes)
      cmd.name.bytes := by
    decide +kernel
  refine ⟨by decide +kernel, ?_⟩
  exact (nvCoreCliTabComplete_completes_iff (registeredCmds [.init])
    (fun cmd hcmd => (registeredCmds_fit _ cmd hcmd).2) 0 (Int.le_refl 0) _ (lit "sta x")
    (by decide +kernel) (by decide +kernel) (by decide +kernel) hmatch (by decide +kernel)).mpr
    fun _ => Or.inl ⟨by decide +kernel, by decide +kernel, by decide +kernel⟩

/-- The command `ac` is registered first, then 32 commands that start with `ab`. -/
def crowdedCmds : List CliCmd :=
  registeredCmds (.register (lit "ac") CString.empty (.plugin 0) ::
    (List.range 32).map fun i =>
      .register (CString.ofBuffer [97, 98, UInt8.ofNat (65 + i)]) CString.empty (.plugin (i + 1)))

/-- The line `a` becomes `ab`, and `ac` is excluded. -/
theorem crowded_candidate_excluded :
    let line := (CBuffer.zero 16).fill (lit "a").bytes
    let done := nvCoreCliTabComplete crowdedCmds 0 line 1
    done.line.text = lit "ab" ∧
      (∃ cmd ∈ crowdedCmds, cmd.name = lit "ac") ∧
      ¬ Completes crowdedCmds 16 (lit "a") done.line.text done.lineLen := by
  have hline : (nvCoreCliTabComplete crowdedCmds 0
      ((CBuffer.zero 16).fill (lit "a").bytes) 1).line.text = lit "ab" := by
    decide +kernel
  have hmem : ∃ cmd ∈ crowdedCmds, cmd.name = lit "ac" := by
    decide +kernel
  refine ⟨hline, hmem, fun hcompletes => ?_⟩
  obtain ⟨cmd, hcmd, hname⟩ := hmem
  have hcommon := hcompletes.common cmd ⟨hcmd, by rw [hname]; decide⟩
  rw [hline, hname] at hcommon
  exact absurd hcommon (by decide)

end Libnv.Cli
