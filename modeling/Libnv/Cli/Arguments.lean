import Libnv.Cli.Command
import Libnv.Lib.Words

/-!
# The arguments of a command

`nv_core_cli_execute_line` once more, with the two arrays on its stack: the copy of
the line, in which `nv_cli_split_args` puts a NUL behind every word, and `argv`,
whose entries point into that copy.  Neither array is initialised; what they hold
on entry is a parameter.

* `nvCoreCliExecuteLine_fst`: the state and the result are those of the model that
  works on lists of words.
* `nvCoreCliExecuteLine_passesWords`: a handler that is called gets the words of
  the line.
-/

namespace Libnv.Cli
namespace Arguments

open CText Libnv.Core

section Model

variable {n maxArgv : Nat}

/-- `while (*p && q(*p)) p++`. -/
def skip (q : UInt8 → Bool) (buf : CBuffer n) (p : Nat) : Nat :=
  p + ((buf.toList.drop p).takeWhile fun b => b ≠ 0 ∧ q b).length

/-- The variables of `nv_cli_split_args`; a pointer is an index of `line`, and `none` is `NULL`. -/
structure Split (n maxArgv : Nat) where
  line : CBuffer n
  argv : Vector (Option Nat) maxArgv
  argc : Nat
  p : Nat

/-- The loop of `nv_cli_split_args`, with room for `room` more words. -/
def splitLoop : Nat → Split n maxArgv → Split n maxArgv
  | 0, st => st
  | room + 1, st =>
      if st.line.peek st.p = 0 then st
      else
        let p := skip isSpace st.line st.p
        if st.line.peek p = 0 then { st with p := p }
        else
          let argv := st.argv.setIfInBounds st.argc (some p)
          let p := skip (! isSpace ·) st.line p
          if st.line.peek p = 0 then splitLoop room ⟨st.line, argv, st.argc + 1, p⟩
          else splitLoop room ⟨st.line.poke p 0, argv, st.argc + 1, p + 1⟩

def nvCliSplitArgs (line : CBuffer n) (argv : Vector (Option Nat) maxArgv) : Split n maxArgv :=
  let st := splitLoop (maxArgv - 1) ⟨line, argv, 0, 0⟩
  { st with argv := st.argv.setIfInBounds st.argc none }

/-- The loop that cuts the CR and LF at the end of the first `n` bytes. -/
def stripNewlines (buf : CBuffer n) : Nat → CBuffer n
  | 0 => buf
  | i + 1 =>
      if buf.peek i = 13 ∨ buf.peek i = 10 then stripNewlines (buf.poke i 0) i else buf

/-- The string at an entry of `argv`. -/
def Split.arg (st : Split n maxArgv) (i : Nat) : CString :=
  match st.argv.toList[i]? with
  | some (some p) => CString.ofBuffer (st.line.toList.drop p)
  | _ => CString.empty

/-- `cmd->handler(ctx, fd, argc, argv)`. -/
structure HandlerCall where
  handler : CliHandler
  args : Split lineMax 16

def HandlerCall.argv (call : HandlerCall) : List CString :=
  (List.range call.args.argc).map call.args.arg

/--
`nv_core_cli_execute_line`, with what `buf` and `argv` hold on entry; besides the
state and the result, the call of the handler if there is one.
-/
def nvCoreCliExecuteLine (env : CliEnv) (s : CliState) (fd : Int) (line : CString)
    (interactive : Bool) (buf : CBuffer lineMax) (argv : Vector (Option Nat) 16) :
    (CliState × Int) × Option HandlerCall :=
  if fd < 0 then ((s, NvRc.error.code), none)
  else
    let s := { nvCoreCliInit s with interactive := interactive }
    let buf := (buf.strncpy line (lineMax - 1)).poke (lineMax - 1) 0
    let buf := stripNewlines buf buf.text.length
    if buf.peek 0 = 0 then ((s, NvRc.ok.code), none)
    else
      let args := nvCliSplitArgs buf argv
      if args.argc = 0 then ((s, NvRc.ok.code), none)
      else
        match nvCliFind s.cmds (args.arg 0) with
        | some cmd =>
            let call : HandlerCall := ⟨cmd.handler, args⟩
            let (s, rc) := cmd.handler.call env s call.argv
            (({ s with interactive := false }, rc), some call)
        -- "unknown command: %s (try help)"
        | none => (({ s with interactive := false }, NvRc.error.code), none)

end Model

/-- The line, cut to its first 511 bytes and stripped of the CR and LF at its end. -/
def commandText (line : CString) : List UInt8 :=
  (line.take (lineMax - 1)).bytes.rdropWhile fun b => b = 13 ∨ b = 10

/-- The bytes from `p` on are the word and its NUL. -/
def StandsAt {n : Nat} (buf : CBuffer n) (p : Nat) (word : List UInt8) : Prop :=
  ∃ rest, buf.toList.drop p = word ++ 0 :: rest

/-- The arguments are the words of the text, as many as there is room for. -/
structure PassesWords (text : List UInt8) (args : Split lineMax 16) : Prop where
  notBlank : ∃ b ∈ text, isSpace b = false
  argc : args.argc = min 15 (words isSpace text).length
  word : ∀ (i : Nat) (word : List UInt8),
    ((words isSpace text).take args.argc)[i]? = some word →
    ∃ p, args.argv.toList[i]? = some (some p) ∧ StandsAt args.line p word
  last : args.argv.toList[args.argc]? = some none

section Buffer

variable {n : Nat} {buf : CBuffer n} {after left text : List UInt8}

/-- The cursor is at the NUL when nothing is left of the text. -/
theorem peek_eq_zero_iff (h : buf.toList = left ++ text ++ 0 :: after) (hnul : 0 ∉ text) :
    buf.peek left.length = 0 ↔ text = [] := by
  rw [List.append_assoc] at h
  cases text with
  | nil => exact iff_of_true (CBuffer.peek_append h) rfl
  | cons b text =>
      rw [CBuffer.peek_append h]
      exact iff_of_false (fun hb => hnul (hb ▸ List.mem_cons_self)) (List.cons_ne_nil _ _)

/-- A scan stops in front of the first byte of another kind, or at the end of the text. -/
theorem skip_of_append {q : UInt8 → Bool} {run rest : List UInt8}
    (h : buf.toList = left ++ (run ++ rest) ++ 0 :: after) (hnul : 0 ∉ run)
    (hrun : ∀ b ∈ run, q b = true) (hrest : ∀ b ∈ rest.head?, q b = false) :
    skip q buf left.length = (left ++ run).length := by
  have hdrop : buf.toList.drop left.length = run ++ (rest ++ 0 :: after) := by
    rw [h, List.append_assoc, List.append_assoc, List.drop_left]
  have htake : (run ++ (rest ++ 0 :: after)).takeWhile (fun b => b ≠ 0 ∧ q b) = run := by
    refine takeWhile_append_of_head _ (fun b hb => ?_) fun b hb => ?_
    · exact decide_eq_true ⟨fun hzero => hnul (hzero ▸ hb), hrun b hb⟩
    · cases rest with
      | nil =>
          cases hb
          rfl
      | cons c rest =>
          cases hb
          exact decide_eq_false fun h => absurd (hrest b rfl) (by rw [h.2]; exact Bool.noConfusion)
  rw [skip, hdrop, htake, List.length_append]

theorem stripNewlines_spec (h : buf.toList = text ++ 0 :: after) :
    ∃ after', (stripNewlines buf text.length).toList =
      text.rdropWhile (fun b => b = 13 ∨ b = 10) ++ 0 :: after' := by
  induction text using List.reverseRecOn generalizing buf after with
  | nil => exact ⟨after, h⟩
  | append_singleton text b ih =>
      rw [List.append_assoc, List.singleton_append] at h
      rw [List.length_append, List.length_singleton, stripNewlines, CBuffer.peek_append h]
      by_cases hb : b = 13 ∨ b = 10
      · rw [if_pos hb, List.rdropWhile_concat_pos _ _ _ (by simpa using hb)]
        exact ih (CBuffer.poke_append h 0)
      · rw [if_neg hb, List.rdropWhile_concat_neg _ _ _ (by simpa using hb)]
        exact ⟨after, by rw [h, List.append_assoc, List.singleton_append]⟩

end Buffer

section Loop

variable {n maxArgv : Nat} {after left : List UInt8} {st : Split n maxArgv}
variable {blanks rest text word : List UInt8} {st' : Split n maxArgv}

/-- The text from the cursor on is `text`, and `left` stands before it. -/
structure At (st : Split n maxArgv) (left text after : List UInt8) : Prop where
  line : st.line.toList = left ++ text ++ 0 :: after
  p : st.p = left.length
  nulFree : 0 ∉ text

/-- The words were stored behind those that `st` already has, and nothing else was moved. -/
structure Stores (st st' : Split n maxArgv) (left : List UInt8) (found : List (List UInt8)) :
    Prop where
  argc : st'.argc = st.argc + found.length
  left : left <+: st'.line.toList
  older : ∀ i, i < st.argc → st'.argv.toList[i]? = st.argv.toList[i]?
  word : ∀ i word, found[i]? = some word →
    ∃ p, st'.argv.toList[st.argc + i]? = some (some p) ∧ StandsAt st'.line p word

theorem At.starts (h : At st left text after) : left <+: st.line.toList :=
  ⟨text ++ 0 :: after, by rw [h.line, List.append_assoc]⟩

theorem Stores.nil (hline : left <+: st'.line.toList)
    (hargc : st'.argc = st.argc) (hargv : st'.argv = st.argv) : Stores st st' left [] where
  argc := hargc
  left := hline
  older := fun i _ => by rw [hargv]
  word := fun i word h => by simp at h

/-- The variables behind a word from `start` to `stop`, with `rest` left of the text. -/
def Split.afterWord (st : Split n maxArgv) (start stop : Nat) (rest : List UInt8) :
    Split n maxArgv where
  line := if rest = [] then st.line else st.line.poke stop 0
  argv := st.argv.setIfInBounds st.argc (some start)
  argc := st.argc + 1
  p := if rest = [] then stop else stop + 1

@[simp] theorem afterWord_argc (st : Split n maxArgv) (start stop : Nat) (rest : List UInt8) :
    (st.afterWord start stop rest).argc = st.argc + 1 := rfl

@[simp] theorem afterWord_argv (st : Split n maxArgv) (start stop : Nat) (rest : List UInt8) :
    (st.afterWord start stop rest).argv.toList = st.argv.toList.set st.argc (some start) :=
  Vector.toList_setIfInBounds

theorem Stores.cons {start stop : Nat} {left' : List UInt8}
    {found : List (List UInt8)} (h : Stores (st.afterWord start stop rest) st' left' found)
    (hroom : st.argc < maxArgv) (hleft : left <+: left') (hword : StandsAt st'.line start word) :
    Stores st st' left (word :: found) where
  argc := by
    rw [h.argc, afterWord_argc, List.length_cons]
    omega
  left := hleft.trans h.left
  older := fun i hi => by
    rw [h.older i (Nat.lt_succ_of_lt hi), afterWord_argv, List.getElem?_set_ne (Nat.ne_of_gt hi)]
  word := by
    intro i next hnext
    cases i with
    | zero =>
        cases hnext
        refine ⟨start, ?_, hword⟩
        rw [Nat.add_zero, h.older _ (Nat.lt_succ_self _), afterWord_argv,
          List.getElem?_set_self (by rwa [Vector.length_toList])]
    | succ i =>
        have hrest := h.word i next hnext
        rwa [afterWord_argc, Nat.add_right_comm] at hrest

theorem splitLoop_of_end (h : At st left [] after) (room : Nat) : splitLoop room st = st := by
  cases room with
  | zero => rfl
  | succ room =>
      have hend := (peek_eq_zero_iff h.line h.nulFree).mpr rfl
      rw [splitLoop, h.p, if_pos hend]

theorem splitLoop_of_blanks
    (h : At st left blanks after) (hblanks : ∀ b ∈ blanks, isSpace b = true) (room : Nat) :
    ∃ p, splitLoop (room + 1) st = { st with p := p } := by
  by_cases hnil : blanks = []
  · subst hnil
    exact ⟨st.p, splitLoop_of_end h _⟩
  · have hline := h.line
    rw [← List.append_nil blanks] at hline
    have hfirst : st.line.peek left.length ≠ 0 :=
      mt (peek_eq_zero_iff h.line h.nulFree).mp hnil
    have hskip : skip isSpace st.line left.length = (left ++ blanks).length :=
      skip_of_append hline h.nulFree hblanks (by simp)
    rw [← List.append_assoc] at hline
    have hend : st.line.peek (left ++ blanks).length = 0 :=
      (peek_eq_zero_iff hline (by simp)).mpr rfl
    exact ⟨_, by rw [splitLoop, h.p, if_neg hfirst, hskip, if_pos hend]⟩

/-- One round stores the next word and puts a NUL behind it. -/
theorem splitLoop_of_word
    (h : At st left (blanks ++ (word ++ rest)) after) (hblanks : ∀ b ∈ blanks, isSpace b = true)
    (hne : word ≠ []) (hword : ∀ b ∈ word, isSpace b = false)
    (hrest : ∀ b ∈ rest.head?, isSpace b = true) (room : Nat) :
    splitLoop (room + 1) st =
      splitLoop room (st.afterWord (left ++ blanks).length (left ++ blanks ++ word).length rest) := by
  have hfirst : st.line.peek left.length ≠ 0 := by
    refine mt (peek_eq_zero_iff h.line h.nulFree).mp fun hnil => hne ?_
    exact (List.append_eq_nil_iff.mp (List.append_eq_nil_iff.mp hnil).2).1
  obtain ⟨hnulBlanks, hnulRest⟩ := not_or.mp (mt List.mem_append.mpr h.nulFree)
  have hskip : skip isSpace st.line left.length = (left ++ blanks).length := by
    refine skip_of_append h.line hnulBlanks hblanks fun b hb => ?_
    obtain ⟨c, word, rfl⟩ := List.exists_cons_of_ne_nil hne
    cases hb
    exact hword _ List.mem_cons_self
  have hline₁ : st.line.toList = left ++ blanks ++ (word ++ rest) ++ 0 :: after := by
    rw [h.line, ← List.append_assoc left]
  have hbegin : st.line.peek (left ++ blanks).length ≠ 0 :=
    mt (peek_eq_zero_iff hline₁ hnulRest).mp (List.append_ne_nil_of_left_ne_nil hne _)
  obtain ⟨hnulWord, hnulEnd⟩ := not_or.mp (mt List.mem_append.mpr hnulRest)
  have hend : skip (! isSpace ·) st.line (left ++ blanks).length =
      (left ++ blanks ++ word).length := by
    refine skip_of_append hline₁ hnulWord (fun b hb => ?_) fun b hb => ?_
    · rw [hword b hb]
      rfl
    · rw [hrest b hb]
      rfl
  have hline₂ : st.line.toList = left ++ blanks ++ word ++ rest ++ 0 :: after := by
    rw [hline₁, ← List.append_assoc (left ++ blanks)]
  rw [splitLoop, h.p, if_neg hfirst, hskip, if_neg hbegin, hend, Split.afterWord]
  by_cases hnil : rest = []
  · rw [if_pos ((peek_eq_zero_iff hline₂ hnulEnd).mpr hnil), if_pos hnil, if_pos hnil]
  · rw [if_neg (mt (peek_eq_zero_iff hline₂ hnulEnd).mp hnil), if_neg hnil, if_neg hnil]

theorem splitLoop_stores {room : Nat}
    (h : At st left text after) (hroom : st.argc + room < maxArgv) :
    Stores st (splitLoop room st) left ((words isSpace text).take room) := by
  induction room generalizing st left text after with
  | zero => exact Stores.nil h.starts rfl rfl
  | succ room ih =>
      by_cases hblank : ∃ b ∈ text, isSpace b = false
      · obtain ⟨blanks, word, rest, rfl, hblanks, hne, hword, hrest⟩ := exists_word hblank
        rw [splitLoop_of_word h hblanks hne hword hrest, words_blanks_append hblanks,
          words_word_append hne hword hrest, List.take_succ_cons]
        have hline : st.line.toList = left ++ blanks ++ word ++ (rest ++ 0 :: after) := by
          rw [h.line]
          simp only [List.append_assoc]
        have hleft : left <+: left ++ blanks ++ word :=
          (List.prefix_append _ _).trans (List.prefix_append _ _)
        have hnul : 0 ∉ rest := fun hmem =>
          h.nulFree (List.mem_append_right _ (List.mem_append_right _ hmem))
        cases rest with
        | nil =>
            -- the NUL behind the last word is that of the text
            have hat : At (st.afterWord (left ++ blanks).length (left ++ blanks ++ word).length [])
                (left ++ blanks ++ word) [] after :=
              ⟨by rw [List.append_nil]; exact hline, rfl, hnul⟩
            rw [splitLoop_of_end hat, List.drop_nil, words_of_blanks (by simp), List.take_nil]
            refine Stores.cons (Stores.nil hat.starts rfl rfl) (by omega) hleft ⟨after, ?_⟩
            rw [Split.afterWord, if_pos rfl, hline, List.append_assoc, List.drop_left]
            rfl
        | cons b rest =>
            have hat : At
                (st.afterWord (left ++ blanks).length (left ++ blanks ++ word).length (b :: rest))
                (left ++ blanks ++ word ++ [0]) rest after := by
              refine ⟨?_, ?_, fun hmem => hnul (List.mem_cons_of_mem _ hmem)⟩
              · rw [Split.afterWord, if_neg (List.cons_ne_nil _ _), CBuffer.poke_append hline]
                simp only [List.append_assoc, List.singleton_append]
                rfl
              · simp [Split.afterWord, Nat.add_assoc]
            have hstores := ih hat (by rw [afterWord_argc]; omega)
            refine Stores.cons hstores (by omega) (hleft.trans (List.prefix_append _ _)) ?_
            obtain ⟨tail, htail⟩ := hstores.left
            refine ⟨tail, ?_⟩
            rw [← htail, List.append_assoc, List.append_assoc, List.drop_left, List.singleton_append]
      · have hblanks : ∀ b ∈ text, isSpace b = true := by simpa using hblank
        obtain ⟨p, hp⟩ := splitLoop_of_blanks h hblanks room
        rw [hp, words_of_blanks hblanks]
        exact Stores.nil h.starts rfl rfl

end Loop

theorem splitArgsLoop_succ {text : List UInt8} (h : text.dropWhile isSpace ≠ []) (room : Nat) :
    splitArgsLoop (room + 1) text =
      CString.ofBuffer ((text.dropWhile isSpace).takeWhile (! isSpace ·)) ::
        splitArgsLoop room (((text.dropWhile isSpace).dropWhile (! isSpace ·)).drop 1) := by
  obtain ⟨b, rest, hcons⟩ := List.exists_cons_of_ne_nil h
  rw [splitArgsLoop, hcons]

/-- The words that the model on lists finds. -/
theorem splitArgsLoop_bytes {text : List UInt8} (hnul : 0 ∉ text) (room : Nat) :
    (splitArgsLoop room text).map CString.bytes = (words isSpace text).take room := by
  induction room generalizing text with
  | zero => rfl
  | succ room ih =>
      by_cases hblank : ∃ b ∈ text, isSpace b = false
      · obtain ⟨blanks, word, rest, rfl, hblanks, hne, hword, hrest⟩ := exists_word hblank
        have hdrop : (blanks ++ (word ++ rest)).dropWhile isSpace = word ++ rest := by
          refine dropWhile_append_of_head isSpace hblanks fun b hb => ?_
          obtain ⟨c, word, rfl⟩ := List.exists_cons_of_ne_nil hne
          cases hb
          exact hword _ List.mem_cons_self
        have hnot : ∀ b ∈ word, (! isSpace b) = true := by simpa using hword
        have hstop : ∀ b ∈ rest.head?, (! isSpace b) = false := by simpa using hrest
        have hnulWord : 0 ∉ word := fun hmem =>
          hnul (List.mem_append_right _ (List.mem_append_left _ hmem))
        have hnulRest : 0 ∉ rest.drop 1 := fun hmem =>
          hnul (List.mem_append_right _ (List.mem_append_right _ (List.mem_of_mem_drop hmem)))
        rw [splitArgsLoop_succ (by rw [hdrop]; exact List.append_ne_nil_of_left_ne_nil hne _), hdrop,
          takeWhile_append_of_head _ hnot hstop, dropWhile_append_of_head _ hnot hstop,
          words_blanks_append hblanks, words_word_append hne hword hrest, List.map_cons,
          ih hnulRest, List.take_succ_cons]
        exact congrArg (· :: _) (List.takeWhile_eq_self_iff.mpr (decide_ne_of_not_mem hnulWord))
      · have hblanks : ∀ b ∈ text, isSpace b = true := by simpa using hblank
        rw [splitArgsLoop, List.dropWhile_eq_nil_iff.mpr hblanks, words_of_blanks hblanks]
        rfl

section Split

theorem nvCliSplitArgs_argv (buf : CBuffer lineMax) (argv : Vector (Option Nat) 16) :
    (nvCliSplitArgs buf argv).argv.toList =
      (splitLoop 15 ⟨buf, argv, 0, 0⟩).argv.toList.set (nvCliSplitArgs buf argv).argc none :=
  Vector.toList_setIfInBounds

variable {buf : CBuffer lineMax} {text after : List UInt8}
variable (hbuf : buf.toList = text ++ 0 :: after) (hnul : 0 ∉ text) (argv : Vector (Option Nat) 16)
include hbuf hnul

theorem splitLoop_stores_words :
    Stores ⟨buf, argv, 0, 0⟩ (splitLoop 15 ⟨buf, argv, 0, 0⟩) []
      ((words isSpace text).take 15) :=
  splitLoop_stores ⟨hbuf, rfl, hnul⟩ (by simp)

theorem nvCliSplitArgs_argc :
    (nvCliSplitArgs buf argv).argc = min 15 (words isSpace text).length := by
  have hargc := (splitLoop_stores_words hbuf hnul argv).argc
  rwa [Nat.zero_add, List.length_take] at hargc

theorem nvCliSplitArgs_word
    {i : Nat} {word : List UInt8} (hword : ((words isSpace text).take 15)[i]? = some word) :
    ∃ p, (nvCliSplitArgs buf argv).argv.toList[i]? = some (some p) ∧
      StandsAt (nvCliSplitArgs buf argv).line p word := by
  have hi : i < (nvCliSplitArgs buf argv).argc := by
    have hlen := (List.getElem?_eq_some_iff.mp hword).1
    rwa [List.length_take, ← nvCliSplitArgs_argc hbuf hnul argv] at hlen
  obtain ⟨p, hp, hstands⟩ := (splitLoop_stores_words hbuf hnul argv).word i word hword
  refine ⟨p, ?_, hstands⟩
  rw [nvCliSplitArgs_argv, List.getElem?_set_ne (Nat.ne_of_gt hi), ← hp, Nat.zero_add]

theorem nvCliSplitArgs_passesWords (hargc : (nvCliSplitArgs buf argv).argc ≠ 0) :
    PassesWords text (nvCliSplitArgs buf argv) := by
  have hcount := nvCliSplitArgs_argc hbuf hnul argv
  refine ⟨?_, hcount, ?_, ?_⟩
  · by_contra hblank
    rw [hcount, words_of_blanks (by simpa using hblank)] at hargc
    exact hargc rfl
  · intro i word hword
    rw [hcount, ← List.take_eq_take_min] at hword
    exact nvCliSplitArgs_word hbuf hnul argv hword
  · rw [nvCliSplitArgs_argv, List.getElem?_set_self]
    rw [Vector.length_toList, hcount]
    omega

/-- Every entry of `argv` is the word that the model on lists has there. -/
theorem arg_eq_of_getElem?
    {i : Nat} {s : CString} (hs : (Cli.nvCliSplitArgs text 16)[i]? = some s) :
    (nvCliSplitArgs buf argv).arg i = s := by
  have hword : ((words isSpace text).take 15)[i]? = some s.bytes := by
    rw [← splitArgsLoop_bytes hnul, List.getElem?_map,
      show (splitArgsLoop 15 text)[i]? = some s from hs]
    rfl
  obtain ⟨p, hp, rest, hstands⟩ := nvCliSplitArgs_word hbuf hnul argv hword
  rw [Split.arg, hp]
  exact (congrArg CString.ofBuffer hstands).trans (CString.ofBuffer_append_nul s rest)

theorem argc_eq_length : (nvCliSplitArgs buf argv).argc = (Cli.nvCliSplitArgs text 16).length := by
  have hlen := congrArg List.length (splitArgsLoop_bytes hnul 15)
  rw [List.length_map, List.length_take] at hlen
  rw [nvCliSplitArgs_argc hbuf hnul argv, ← hlen]
  rfl

/-- A handler reads the words that the model on lists passes to it. -/
theorem argv_eq_nvCliSplitArgs (handler : CliHandler) :
    HandlerCall.argv ⟨handler, nvCliSplitArgs buf argv⟩ = Cli.nvCliSplitArgs text 16 := by
  have hlen := argc_eq_length hbuf hnul argv
  refine List.ext_getElem ?_ fun i hi hi' => ?_
  · rw [HandlerCall.argv, List.length_map, List.length_range, hlen]
  · simp only [HandlerCall.argv, List.getElem_map, List.getElem_range]
    exact arg_eq_of_getElem? hbuf hnul argv (List.getElem?_eq_getElem hi')

end Split

section Execute

theorem nul_not_mem_commandText (line : CString) : 0 ∉ commandText line := fun hmem =>
  (line.take (lineMax - 1)).nulFree ((List.rdropWhile_prefix _ _).subset hmem)

/-- The copy of the line, without the CR and LF at its end. -/
theorem stripNewlines_commandText (buf : CBuffer lineMax) (line : CString) :
    let copy := (buf.strncpy line (lineMax - 1)).poke (lineMax - 1) 0
    ∃ after, (stripNewlines copy copy.text.length).toList = commandText line ++ 0 :: after := by
  intro copy
  have hlast : lineMax - 1 < lineMax := by decide
  obtain ⟨rest, hcopy⟩ := buf.strncpy_poke_toList line hlast
  have htext : copy.text = line.take (lineMax - 1) := buf.text_strncpy_poke line hlast
  rw [htext]
  exact stripNewlines_spec hcopy

variable (env : CliEnv) (s : CliState) (fd : Int) (line : CString) (interactive : Bool)

/--
The two models agree, and the handler that is called is that of the first word;
its arguments are cut from a copy of the line.
-/
theorem nvCoreCliExecuteLine_eq (buf : CBuffer lineMax) (argv : Vector (Option Nat) 16) :
    ∃ (copy : CBuffer lineMax) (after : List UInt8),
      copy.toList = commandText line ++ 0 :: after ∧
      nvCoreCliExecuteLine env s fd line interactive buf argv =
        (Cli.nvCoreCliExecuteLine env s fd line interactive,
          if fd < 0 then none
          else
            ((Cli.nvCliSplitArgs (commandText line) 16).head?.bind
              (nvCliFind (nvCoreCliInit s).cmds)).map
                fun cmd => ⟨cmd.handler, nvCliSplitArgs copy argv⟩) := by
  obtain ⟨after, hbuf⟩ := stripNewlines_commandText buf line
  refine ⟨_, after, hbuf, ?_⟩
  unfold nvCoreCliExecuteLine Cli.nvCoreCliExecuteLine
  by_cases hfd : fd < 0
  · rw [if_pos hfd, if_pos hfd, if_pos hfd]
  · rw [if_neg hfd, if_neg hfd, if_neg hfd]
    have hnul := nul_not_mem_commandText line
    dsimp only at hbuf ⊢
    generalize stripNewlines _ _ = copy at hbuf ⊢
    have hempty : copy.peek 0 = 0 ↔ commandText line = [] :=
      @peek_eq_zero_iff _ copy _ [] _ hbuf hnul
    rw [← commandText]
    by_cases hnil : commandText line = []
    · rw [if_pos (hempty.mpr hnil), if_pos hnil, hnil]
      rfl
    · rw [if_neg (mt hempty.mp hnil), if_neg hnil]
      have hargc := argc_eq_length hbuf hnul argv
      have hcall := argv_eq_nvCliSplitArgs hbuf hnul argv
      cases hwords : Cli.nvCliSplitArgs (commandText line) 16 with
      | nil =>
          rw [hwords, List.length_nil] at hargc
          rw [if_pos hargc]
          rfl
      | cons name args =>
          have hname := arg_eq_of_getElem? hbuf hnul argv (i := 0) (by rw [hwords]; rfl)
          rw [hwords, List.length_cons] at hargc
          rw [if_neg (by rw [hargc]; exact Nat.succ_ne_zero _), hname, List.head?_cons,
            Option.bind_some]
          dsimp only
          cases nvCliFind (nvCoreCliInit s).cmds name with
          | none => rfl
          | some cmd =>
              dsimp only
              rw [hcall, hwords]
              rfl

/-- What the arrays hold on entry makes no difference to the state and to the result. -/
theorem nvCoreCliExecuteLine_fst (buf : CBuffer lineMax) (argv : Vector (Option Nat) 16) :
    (nvCoreCliExecuteLine env s fd line interactive buf argv).1 =
      Cli.nvCoreCliExecuteLine env s fd line interactive := by
  obtain ⟨copy, after, -, heq⟩ := nvCoreCliExecuteLine_eq env s fd line interactive buf argv
  rw [heq]

theorem nvCoreCliExecuteLine_calls_iff (buf : CBuffer lineMax) (argv : Vector (Option Nat) 16) :
    (nvCoreCliExecuteLine env s fd line interactive buf argv).2.isSome ↔
      0 ≤ fd ∧ ((Cli.nvCliSplitArgs (commandText line) 16).head?.bind
        (nvCliFind (nvCoreCliInit s).cmds)).isSome := by
  obtain ⟨copy, after, -, heq⟩ := nvCoreCliExecuteLine_eq env s fd line interactive buf argv
  rw [heq]
  by_cases hfd : fd < 0
  · rw [if_pos hfd]
    exact iff_of_false Bool.false_ne_true fun h => absurd h.1 (Int.not_le.mpr hfd)
  · rw [if_neg hfd, Option.isSome_map]
    exact (and_iff_right (Int.not_lt.mp hfd)).symm

/-- A handler that is called gets the words of the line. -/
theorem nvCoreCliExecuteLine_passesWords
    {buf : CBuffer lineMax}
    {argv : Vector (Option Nat) 16}
    {call : HandlerCall}
    (h : (nvCoreCliExecuteLine env s fd line interactive buf argv).2 = some call) :
    PassesWords (commandText line) call.args := by
  obtain ⟨copy, after, hcopy, heq⟩ := nvCoreCliExecuteLine_eq env s fd line interactive buf argv
  have hnul := nul_not_mem_commandText line
  rw [heq] at h
  split_ifs at h
  obtain ⟨cmd, hcmd, rfl⟩ := Option.map_eq_some_iff.mp h
  obtain ⟨name, hname, -⟩ := Option.bind_eq_some_iff.mp hcmd
  refine nvCliSplitArgs_passesWords hcopy hnul argv fun hzero => ?_
  rw [argc_eq_length hcopy hnul argv, List.length_eq_zero_iff] at hzero
  rw [hzero] at hname
  cases hname

/-- The line ` ping  10.0.0.1` with CR and LF, where `ping` is registered. -/
theorem nvCoreCliExecuteLine_passesWords_ping :
    ∃ call, (nvCoreCliExecuteLine ⟨fun _ => none, fun _ s _ => (s, 0)⟩
        ⟨nvCoreSetDefaults, false, [⟨lit "ping", lit "connectivity test", .ping⟩], false, true⟩ 1
        (lit " ping  10.0.0.1\r\n") true (CBuffer.zero lineMax) (Vector.replicate 16 none)).2 =
          some call ∧
      PassesWords (commandText (lit " ping  10.0.0.1\r\n")) call.args := by
  refine Exists.imp (fun call hcall => ⟨hcall, nvCoreCliExecuteLine_passesWords _ _ _ _ _ hcall⟩)
    (Option.isSome_iff_exists.mp ((nvCoreCliExecuteLine_calls_iff _ _ _ _ _ _ _).mpr ⟨?_, ?_⟩))
  · decide
  · decide

end Execute

end Arguments
end Libnv.Cli
