import Libnv.Core.Loadlib
import Libnv.Lib.Lines

/-!
# Quoting in `loadlib` directives

`nv_loadlib_strip_comment` and `nv_loadlib_parse_token` both follow the quotes and
the backslashes of a line, each with its own loop.  On a text in double quotes
that has a backslash before each backslash and each double quote, they agree on
where it ends: nothing in it starts a comment, and the token is the text.  So a
directive gives back the path and the arguments that were written.
-/

namespace Libnv.Core

open CText

/-- A backslash goes before each backslash and each double quote. -/
def escapeQuotes : List UInt8 → List UInt8
  | [] => []
  | b :: bs =>
      if b = 34 ∨ b = 92 then 92 :: b :: escapeQuotes bs else b :: escapeQuotes bs

def quoted (text : List UInt8) : List UInt8 :=
  34 :: (escapeQuotes text ++ [34])

theorem mem_escapeQuotes {b : UInt8} {text : List UInt8} (h : b ∈ escapeQuotes text) :
    b = 92 ∨ b ∈ text := by
  induction text with
  | nil => cases h
  | cons c text ih =>
      unfold escapeQuotes at h
      split at h
      · rcases List.mem_cons.mp h with rfl | h
        · exact Or.inl rfl
        · rcases List.mem_cons.mp h with rfl | h
          · exact Or.inr List.mem_cons_self
          · exact (ih h).imp_right (List.mem_cons_of_mem c)
      · rcases List.mem_cons.mp h with rfl | h
        · exact Or.inr List.mem_cons_self
        · exact (ih h).imp_right (List.mem_cons_of_mem c)

theorem not_mem_quoted {b : UInt8} {text : List UInt8} (hquote : b ≠ 34) (hslash : b ≠ 92)
    (htext : b ∉ text) : b ∉ quoted text := by
  intro h
  simp only [quoted, List.mem_cons, List.mem_append, List.not_mem_nil, or_false] at h
  rcases h with h | h | h
  · exact hquote h
  · exact (mem_escapeQuotes h).elim hslash htext
  · exact hquote h

/-- Outside quotes the loop only looks for a quote and a semicolon. -/
theorem stripCommentLoop_plain {text : List UInt8} (h : ∀ b ∈ text, b ≠ 34 ∧ b ≠ 59)
    (rest : List UInt8) :
    stripCommentLoop false false (text ++ rest) = text ++ stripCommentLoop false false rest := by
  induction text with
  | nil => rfl
  | cons b text ih =>
      obtain ⟨⟨hquote, hsemi⟩, htext⟩ := List.forall_mem_cons.mp h
      simp [stripCommentLoop, hquote, hsemi, ih htext]

theorem stripCommentLoop_escapeQuotes (text rest : List UInt8) :
    stripCommentLoop true false (escapeQuotes text ++ rest) =
      escapeQuotes text ++ stripCommentLoop true false rest := by
  induction text with
  | nil => rfl
  | cons b text ih =>
      unfold escapeQuotes
      split
      · simp [stripCommentLoop, ih]
      next hplain =>
        obtain ⟨hquote, hslash⟩ := not_or.mp hplain
        simp [stripCommentLoop, hquote, hslash, ih]

theorem stripCommentLoop_quoted (text rest : List UInt8) :
    stripCommentLoop false false (quoted text ++ rest) =
      quoted text ++ stripCommentLoop false false rest := by
  simp [quoted, stripCommentLoop, stripCommentLoop_escapeQuotes]

theorem quotedToken_escapeQuotes {room : Nat} {text : List UInt8} (hroom : text.length ≤ room)
    (rest : List UInt8) :
    quotedToken room (escapeQuotes text ++ 34 :: rest) = some (text, rest) := by
  induction text generalizing room with
  | nil => cases room <;> rfl
  | cons b text ih =>
      obtain ⟨room, rfl⟩ : ∃ n, room = n + 1 := by
        cases room with
        | zero => exact absurd hroom (Nat.not_succ_le_zero _)
        | succ n => exact ⟨n, rfl⟩
      have hrest := ih (Nat.le_of_succ_le_succ hroom)
      unfold escapeQuotes
      split
      · simp [quotedToken, hrest]
      next hplain =>
        obtain ⟨hquote, hslash⟩ := not_or.mp hplain
        simp [quotedToken, hslash, hrest]

theorem nvLoadlibParseToken_quoted {gap : List UInt8} {text : CString} {size : Nat}
    (hgap : ∀ b ∈ gap, isSpace b = true) (hsize : text.length < size) (rest : List UInt8) :
    nvLoadlibParseToken (gap ++ (quoted text.bytes ++ rest)) size = .ok text rest := by
  have hdrop : (gap ++ (quoted text.bytes ++ rest)).dropWhile isSpace =
      34 :: (escapeQuotes text.bytes ++ 34 :: rest) := by
    rw [List.dropWhile_append_of_pos hgap]
    simp [quoted, isSpace]
  unfold nvLoadlibParseToken
  simp only [hdrop]
  rw [quotedToken_escapeQuotes (Nat.le_sub_one_of_lt hsize)]
  simp only [CString.ofBuffer_bytes]

/-- White space that stays on the line. -/
def isGap (b : UInt8) : Bool :=
  isSpace b ∧ b ≠ 10

/-- A directive as somebody writes it: both tokens in quotes, and a comment at the end. -/
structure Directive where
  path : CString
  args : CString
  comment : CString
  /-- The white space before `loadlib`, before each token and before the comment. -/
  lead : List UInt8
  beforePath : List UInt8
  beforeArgs : List UInt8
  beforeComment : List UInt8
  path_length : 1 ≤ path.length ∧ path.length ≤ 511
  args_length : args.length ≤ 511
  one_line : 10 ∉ path.bytes ∧ 10 ∉ args.bytes ∧ 10 ∉ comment.bytes
  gaps : ∀ b ∈ lead ++ beforePath ++ beforeArgs ++ beforeComment, isGap b = true

namespace Directive

variable (d : Directive)

/-- What follows the word `loadlib`, up to the comment. -/
def tokens : List UInt8 :=
  d.beforePath ++ (quoted d.path.bytes ++ (d.beforeArgs ++ quoted d.args.bytes))

def line : List UInt8 :=
  d.lead ++ ((lit "loadlib").bytes ++ (d.tokens ++ (d.beforeComment ++ 59 :: d.comment.bytes)))

theorem isSpace_of_mem {b : UInt8}
    (h : b ∈ d.lead ∨ b ∈ d.beforePath ∨ b ∈ d.beforeArgs ∨ b ∈ d.beforeComment) :
    isSpace b = true ∧ b ≠ 10 := by
  have hgap : isGap b = true := by
    apply d.gaps
    simpa [or_assoc] using h
  simpa [isGap] using hgap

/-- White space is neither a quote nor a semicolon. -/
theorem plain_of_isSpace {b : UInt8} (h : isSpace b = true) : b ≠ 34 ∧ b ≠ 59 := by
  constructor
  · rintro rfl
    revert h
    decide
  · rintro rfl
    revert h
    decide

theorem not_mem_line {b : UInt8} (hb : b = 0 ∨ b = 10) : b ∉ d.line := by
  have hgap : ¬(b ∈ d.lead ∨ b ∈ d.beforePath ∨ b ∈ d.beforeArgs ∨ b ∈ d.beforeComment) := by
    intro h
    obtain ⟨hspace, hnewline⟩ := d.isSpace_of_mem h
    rcases hb with rfl | rfl
    · revert hspace
      decide
    · exact hnewline rfl
  obtain ⟨hlead, hpath, hargs, hcomment⟩ := by simpa only [not_or] using hgap
  have hword : b ∉ (lit "loadlib").bytes := by
    rcases hb with rfl | rfl <;> decide
  have hfree : b ∉ d.path.bytes ∧ b ∉ d.args.bytes ∧ b ∉ d.comment.bytes := by
    rcases hb with rfl | rfl
    · exact ⟨d.path.nulFree, d.args.nulFree, d.comment.nulFree⟩
    · exact d.one_line
  have hquote : b ≠ 34 := by
    rcases hb with rfl | rfl <;> decide
  have hslash : b ≠ 92 := by
    rcases hb with rfl | rfl <;> decide
  have hsemi : b ≠ 59 := by
    rcases hb with rfl | rfl <;> decide
  simp only [line, tokens, List.mem_append, List.mem_cons, not_or]
  exact ⟨hlead, hword, ⟨hpath, not_mem_quoted hquote hslash hfree.1, hargs,
    not_mem_quoted hquote hslash hfree.2.1⟩, hcomment, hsemi, hfree.2.2⟩

/-- The comment goes, whatever it is made of, and with it a newline behind it. -/
theorem stripComment_line (ending : List UInt8) :
    nvLoadlibStripComment (d.line ++ ending) =
      d.lead ++ ((lit "loadlib").bytes ++ (d.tokens ++ d.beforeComment)) := by
  have hplain : ∀ {gap : List UInt8}, (∀ b ∈ gap, isSpace b = true ∧ b ≠ 10) →
      ∀ b ∈ gap, b ≠ 34 ∧ b ≠ 59 := by
    intro gap h b hb
    exact plain_of_isSpace (h b hb).1
  have hall : ((lit "loadlib").bytes.all fun b => b ≠ 34 ∧ b ≠ 59) = true := by decide
  have hword : ∀ b ∈ (lit "loadlib").bytes, b ≠ 34 ∧ b ≠ 59 :=
    fun b hb => of_decide_eq_true (List.all_eq_true.mp hall b hb)
  simp only [nvLoadlibStripComment, line, tokens, List.append_assoc, List.cons_append]
  rw [stripCommentLoop_plain (hplain fun b hb => d.isSpace_of_mem (Or.inl hb)),
    stripCommentLoop_plain hword,
    stripCommentLoop_plain (hplain fun b hb => d.isSpace_of_mem (Or.inr (Or.inl hb))),
    stripCommentLoop_quoted,
    stripCommentLoop_plain (hplain fun b hb => d.isSpace_of_mem (Or.inr (Or.inr (Or.inl hb)))),
    stripCommentLoop_quoted,
    stripCommentLoop_plain (hplain fun b hb => d.isSpace_of_mem (Or.inr (Or.inr (Or.inr hb))))]
  simp [stripCommentLoop]

/-- Trimming leaves the word and the tokens: the last byte is a quote. -/
theorem trim_stripComment_line (ending : List UInt8) :
    trim (nvLoadlibStripComment (d.line ++ ending)) = (lit "loadlib").bytes ++ d.tokens := by
  have hlead : ∀ b ∈ d.lead, isSpace b = true := fun b hb => (d.isSpace_of_mem (Or.inl hb)).1
  have hlast : ∀ b ∈ d.beforeComment, isSpace b = true :=
    fun b hb => (d.isSpace_of_mem (Or.inr (Or.inr (Or.inr hb)))).1
  rw [stripComment_line, trim_blanks_append hlead, ← List.append_assoc, trim_append_blanks hlast]
  have hends : (lit "loadlib").bytes ++ d.tokens =
      (lit "loadlib").bytes ++ (d.beforePath ++ (quoted d.path.bytes ++ (d.beforeArgs ++
        34 :: escapeQuotes d.args.bytes))) ++ 34 :: [] := by
    simp [tokens, quoted]
  rw [hends, trim_append_cons (by decide)]
  simp [lit, CString.ofBuffer, isSpace]

theorem fgets_line (hfits : d.line.length ≤ 1023) {tail : List UInt8}
    (htail : tail = [] ∨ tail.head? = some 10) :
    ∃ ending, 0 ∉ ending ∧ (fgetsTake 1023 (d.line ++ tail)).1 = d.line ++ ending := by
  rw [fgetsTake_line_append (d.not_mem_line (Or.inr rfl)) hfits]
  refine ⟨_, ?_, rfl⟩
  cases tail with
  | nil => cases hroom : 1023 - d.line.length <;> simp [fgetsTake]
  | cons b tail =>
      obtain rfl : b = 10 := by simpa using htail
      cases hroom : 1023 - d.line.length <;> simp [fgetsTake]

theorem trimmed_line (hfits : d.line.length ≤ 1023) {tail : List UInt8}
    (htail : tail = [] ∨ tail.head? = some 10) :
    trim (nvLoadlibStripComment (CString.ofBuffer (fgetsTake 1023 (d.line ++ tail)).1).bytes) =
      (lit "loadlib").bytes ++ d.tokens := by
  obtain ⟨ending, hending, hbuffer⟩ := d.fgets_line hfits htail
  have hfree : (0 : UInt8) ∉ d.line ++ ending := by
    simp [d.not_mem_line (Or.inl rfl), hending]
  rw [hbuffer, show CString.ofBuffer (d.line ++ ending) = ⟨d.line ++ ending, hfree⟩ from
    CString.ofBuffer_bytes ⟨_, hfree⟩]
  exact d.trim_stripComment_line ending

theorem parseToken_path :
    nvLoadlibParseToken d.tokens 512 = .ok d.path (d.beforeArgs ++ quoted d.args.bytes) := by
  have hgap : ∀ b ∈ d.beforePath, isSpace b = true :=
    fun b hb => (d.isSpace_of_mem (Or.inr (Or.inl hb))).1
  exact nvLoadlibParseToken_quoted hgap (Nat.lt_succ_of_le d.path_length.2) _

/-- The second token of a directive is its arguments, and nothing follows. -/
theorem parseToken_args :
    nvLoadlibParseToken (d.beforeArgs ++ quoted d.args.bytes) 512 = .ok d.args [] := by
  have hgap : ∀ b ∈ d.beforeArgs, isSpace b = true :=
    fun b hb => (d.isSpace_of_mem (Or.inr (Or.inr (Or.inl hb)))).1
  simpa using nvLoadlibParseToken_quoted hgap (Nat.lt_succ_of_le d.args_length) []

/--
A directive that fits into the buffer gives back the path and the arguments that
were written, with nothing left over.
-/
theorem parsed_as_written
    (d : Directive)
    (hfits : d.line.length ≤ 1023)
    (tail : List UInt8)
    (htail : tail = [] ∨ tail.head? = some 10) :
    let buffer := CString.ofBuffer (fgetsTake 1023 (d.line ++ tail)).1
    let trimmed := trim (nvLoadlibStripComment buffer.bytes)
    (lit "loadlib").bytes <+: trimmed ∧
      ∃ rest, nvLoadlibParseToken (trimmed.drop 7) 512 = .ok d.path rest ∧
        nvLoadlibParseToken rest 512 = .ok d.args [] := by
  intro buffer trimmed
  have htrimmed : trimmed = (lit "loadlib").bytes ++ d.tokens := d.trimmed_line hfits htail
  have hdrop : trimmed.drop 7 = d.tokens := by
    rw [htrimmed]
    exact List.drop_left' (by decide)
  refine ⟨⟨d.tokens, htrimmed.symm⟩, d.beforeArgs ++ quoted d.args.bytes, ?_, d.parseToken_args⟩
  rw [hdrop]
  exact d.parseToken_path

/-- A directive with a quote and a semicolon in its path and a backslash in its arguments. -/
def sample : Directive where
  path := lit "a\";b"
  args := lit "c\\ d"
  comment := lit " \"x"
  lead := []
  beforePath := [32]
  beforeArgs := [9, 32]
  beforeComment := []
  path_length := by decide
  args_length := by decide
  one_line := by decide
  gaps := List.all_eq_true.mp (by decide)

theorem sample_parsed :
    sample.line.length ≤ 1023 ∧
      let trimmed := trim (nvLoadlibStripComment
        (CString.ofBuffer (fgetsTake 1023 (sample.line ++ [10])).1).bytes)
      (lit "loadlib").bytes <+: trimmed ∧
        ∃ rest, nvLoadlibParseToken (trimmed.drop 7) 512 = .ok (lit "a\";b") rest ∧
          nvLoadlibParseToken rest 512 = .ok (lit "c\\ d") [] :=
  ⟨by decide, parsed_as_written sample (by decide) [10] (Or.inr rfl)⟩

end Directive

end Libnv.Core
