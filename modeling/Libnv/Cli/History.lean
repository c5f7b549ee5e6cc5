import Mathlib.Logic.Function.Iterate
import Libnv.Cli.Keys

/-!
# Browsing the history

The first Up saves the line that is being edited in `history_draft`, and the last
Down puts it back.  The line has no terminator while it is edited, but it is saved
as a C string: what an earlier line has left behind the last character is saved
with it.  The text comes back exactly when the byte behind it is a NUL.
-/

namespace Libnv.Cli

open CText

section Line

/-- What holds of `line` and `line_len` in every session. -/
structure LineOk (edited : CBuffer lineMax × Nat) : Prop where
  fits : edited.2 ≤ lineMax - 1
  nulFree : (0 : UInt8) ∉ edited.1.toList.take edited.2
  last : edited.1.toList[lineMax - 1]? = some 0

variable {buf : CBuffer lineMax} {len : Nat}

theorem last_poke_nul (h : buf.toList[lineMax - 1]? = some 0) (i : Nat) :
    (buf.poke i 0).toList[lineMax - 1]? = some 0 := by
  have hlen : buf.toList.length = lineMax := Vector.length_toList
  rw [CBuffer.poke_toList, List.getElem?_set]
  split
  next hi =>
    subst hi
    exact if_pos (by rw [hlen]; decide)
  · exact h

/-- A copy of a string keeps the NUL at the end of the array. -/
theorem last_snprintf (h : buf.toList[lineMax - 1]? = some 0) (s : CString) :
    (buf.snprintf s).toList[lineMax - 1]? = some 0 := by
  have hshort : (s.take (lineMax - 1)).bytes.length ≤ lineMax - 1 := s.length_take_le (lineMax - 1)
  rw [CBuffer.snprintf, CBuffer.fill_toList, List.getElem?_take_of_lt (show lineMax - 1 < lineMax by decide)]
  rcases Nat.lt_or_eq_of_le hshort with hlt | heq
  · rw [List.getElem?_append_right (by simp only [List.length_append, List.length_singleton]; omega),
      List.getElem?_drop]
    simp only [List.length_append, List.length_singleton]
    rw [Nat.add_sub_of_le (by omega)]
    exact h
  · rw [List.getElem?_append_left (by simp only [List.length_append, List.length_singleton]; omega),
      List.getElem?_append_right (by omega), heq]
    simp

theorem LineOk.zero : LineOk (CBuffer.zero lineMax, 0) where
  fits := Nat.zero_le _
  nulFree := by simp
  last := by simp [CBuffer.zero, Vector.toList_replicate]

theorem LineOk.empty (h : buf.toList[lineMax - 1]? = some 0) : LineOk (buf, 0) where
  fits := Nat.zero_le _
  nulFree := by simp
  last := h

theorem LineOk.ofText (h : buf.toList[lineMax - 1]? = some 0) : LineOk (buf, buf.text.length) where
  fits := CBuffer.length_text_le h
  nulFree := by
    rw [CBuffer.take_length_text]
    exact buf.text.nulFree
  last := h

theorem LineOk.terminate (h : LineOk (buf, len)) : LineOk (buf.poke len 0, len) where
  fits := h.fits
  nulFree := by
    rw [CBuffer.poke_toList, List.take_set_of_le (Nat.le_refl len)]
    exact h.nulFree
  last := last_poke_nul h.last len

theorem LineOk.backspace (h : LineOk (buf, len)) : LineOk (buf, len - 1) where
  fits := Nat.le_trans (Nat.sub_le len 1) h.fits
  nulFree := fun hmem => h.nulFree (List.take_subset_take_left _ (Nat.sub_le len 1) hmem)
  last := h.last

theorem LineOk.append (h : LineOk (buf, len)) (hroom : len < lineMax - 1) {c : UInt8} (hc : c ≠ 0) :
    LineOk (buf.poke len c, len + 1) where
  fits := hroom
  nulFree := by
    have hlen : len < buf.toList.length := by
      rw [Vector.length_toList]
      omega
    rw [CBuffer.poke_toList, List.take_add_one, List.take_set_of_le (Nat.le_refl len),
      List.getElem?_set_self hlen]
    simp only [Option.toList_some, List.mem_append, List.mem_singleton, not_or]
    exact ⟨h.nulFree, hc.symm⟩
  last := by
    rw [CBuffer.poke_toList, List.getElem?_set_ne (by omega)]
    exact h.last

theorem lineOk_putLine (buf : CBuffer lineMax) (newLine : List UInt8) :
    LineOk (putLine buf newLine) := by
  refine LineOk.ofText ?_
  rw [CBuffer.poke_toList, List.getElem?_set_self]
  rw [Vector.length_toList]
  decide

theorem LineOk.tabComplete (h : LineOk (buf, len)) (cmds : List CliCmd) (fd : Int) :
    LineOk ((nvCoreCliTabComplete cmds fd buf len).line,
      (nvCoreCliTabComplete cmds fd buf len).lineLen) := by
  unfold nvCoreCliTabComplete
  split
  · exact h
  · extract_lets line wordLen found tail
    have hline : LineOk (line, len) := h.terminate
    clear_value found
    rcases found with _ | ⟨first, _ | ⟨second, others⟩⟩
    · exact hline
    · have hput := lineOk_putLine line (nvCliBuildCompletedLine first.bytes tail)
      dsimp only
      generalize putLine line _ = completed at hput ⊢
      exact hput
    · have hput := lineOk_putLine line
        ((first.take (nvCliMatchesLcp (first :: second :: others))).bytes ++ tail)
      dsimp only
      split_ifs
      · generalize putLine line _ = completed at hput ⊢
        exact hput
      · exact hline

end Line

/-- The same with escape sequences. -/
structure Kept (env : TelnetEnv) (P : TelnetState → Prop) : Prop extends KeptInput env P where
  recallUp : ∀ {st}, P st → P (st.upd TelnetSess.recallUp)
  recallDown : ∀ {st}, P st → P (st.upd TelnetSess.recallDown)
  takeByte : ∀ {st} c, P st → P (st.takeByte c)

namespace Kept

variable {env : TelnetEnv} {P : TelnetState → Prop} {st : TelnetState} (h : Kept env P)
include h

theorem historyUp (hst : P st) : P (nvTelnetHistoryUp st) := by
  have hup : P { st with sess := st.sess.recallUp } := h.recallUp hst
  refine h.log _ ?_
  unfold TelnetSess.recallUp at hup
  split_ifs at hup ⊢
  · exact hst
  · exact h.write _ hup
  · exact h.write _ hup
  · exact hst

theorem historyDown (hst : P st) : P (nvTelnetHistoryDown st) := by
  have hdown : P { st with sess := st.sess.recallDown } := h.recallDown hst
  refine h.log _ ?_
  unfold TelnetSess.recallDown at hdown
  split_ifs at hdown ⊢
  · exact hst
  · exact h.write _ hdown
  · exact h.write _ hdown

theorem escapeFeed (c : UInt8) (hst : P st) : P (nvTelnetEscapeFeed st c).1 := by
  have htake := h.takeByte c hst
  rw [nvTelnetEscapeFeed_eq]
  dsimp only
  split_ifs
  · exact hst
  · exact h.endEscape (h.historyUp htake)
  · exact h.endEscape (h.historyDown htake)
  · exact h.endEscape htake
  · exact htake

theorem feed (bs : List UInt8) (hst : P st) : P (nvTelnetFeed env st bs) :=
  nvTelnetFeed_invariant (fun _ _ => h.log _) (fun _ c => h.escapeFeed c) (fun _ c => h.input c) hst
    bs

theorem clientHandler (input : Option (List UInt8)) (hst : P st) :
    P (nvTelnetClientHandler env st input) := by
  unfold nvTelnetClientHandler
  split_ifs
  · exact hst
  · rcases input with _ | _ | ⟨c, rest⟩
    · exact h.remove hst
    · exact h.remove hst
    · have hfed := h.log .testQuit (h.feed (c :: rest) hst)
      dsimp only
      split_ifs
      · exact h.remove hfed
      · exact hfed

end Kept

section Invariant

/-- A session that was not closed has a proper line. -/
def OpenLineOk (st : TelnetState) : Prop :=
  st.freed = true ∨ LineOk st.edited

variable {s : TelnetSess} {st : TelnetState}

theorem recalled_eq (s : TelnetSess) (entry : CString) :
    (s.putLine entry).terminate =
      { s with
        line := (s.line.snprintf entry).poke (s.line.snprintf entry).text.length 0
        lineLen := (s.line.snprintf entry).text.length } := rfl

section Lines

variable (h : LineOk (s.line, s.lineLen))
include h

theorem LineOk.recalled (entry : CString) :
    LineOk ((s.putLine entry).terminate.line, (s.putLine entry).terminate.lineLen) :=
  (LineOk.ofText (last_snprintf h.last entry)).terminate

theorem LineOk.recallUp : LineOk (s.recallUp.line, s.recallUp.lineLen) := by
  unfold TelnetSess.recallUp
  split_ifs
  · exact h
  · exact LineOk.recalled h _
  · exact LineOk.recalled h _
  · exact h

theorem LineOk.recallDown : LineOk (s.recallDown.line, s.recallDown.lineLen) := by
  unfold TelnetSess.recallDown
  split_ifs
  · exact h
  · exact LineOk.recalled h _
  · exact LineOk.recalled h _

theorem LineOk.typed {c : UInt8} (hc : ¬c < 32) :
    LineOk ((s.typed c).line, (s.typed c).lineLen) := by
  have hnul : c ≠ 0 := by
    rintro rfl
    exact hc (by decide)
  unfold TelnetSess.typed
  dsimp only
  split_ifs with hroom
  · exact (LineOk.empty (last_poke_nul h.last 0)).append (by decide) hnul
  · exact h.append hroom hnul
  · exact h

end Lines

theorem openLineOk_kept (env : TelnetEnv) : Kept env OpenLineOk where
  log _ h := h
  terminate h := h.imp_right LineOk.terminate
  recallUp h := h.imp_right LineOk.recallUp
  recallDown h := h.imp_right LineOk.recallDown
  atTab h := h.imp_right LineOk.terminate
  complete cmds fd h := h.imp_right fun h => h.tabComplete cmds fd
  takeByte _ h := h
  endEscape h := h
  typed hc h := h.imp_right fun h => h.typed hc
  backspace h := h.imp_right LineOk.backspace
  clearLine h := h.imp_right fun h => LineOk.empty h.last
  setUser _ h := h
  setState _ h := h
  clearHistory h := h
  leaveHistory h := h
  historyAdd line h := by
    unfold nvTelnetHistoryAdd
    split_ifs <;> exact h
  execute _ _ h := h
  remove _ := Or.inl rfl

theorem OpenLineOk.step (env : TelnetEnv) (st : TelnetState) (a : TelnetAction)
    (h : OpenLineOk st) : OpenLineOk (telnetStep env st a) := by
  cases a with
  | readable input =>
      simp only [telnetStep]
      split_ifs
      · exact h
      · exact (openLineOk_kept env).clientHandler input h
  | others cli sessions => exact h
  | cleanup =>
      simp only [telnetStep]
      split_ifs
      · exact h
      · exact Or.inl rfl

theorem openLineOk_start (env : TelnetEnv) (cli : CliState) (sessions : List Nat) (self : Nat)
    (cfd : Int) : OpenLineOk (nvTelnetSessStart env cli sessions self cfd) :=
  (openLineOk_kept env).sessStart (Or.inr LineOk.zero)

end Invariant

section Draft

variable {buf : CBuffer lineMax} {len : Nat}

theorem LineOk.toList_eq (h : LineOk (buf, len)) :
    ∃ rest, buf.toList = buf.toList.take len ++ buf.toList.getD len 0 :: rest := by
  have hlt : len < buf.toList.length := by
    rw [Vector.length_toList]
    exact Nat.lt_of_le_of_lt h.fits (by decide)
  refine ⟨buf.toList.drop (len + 1), ?_⟩
  rw [List.getD_eq_getElem _ _ hlt, ← List.drop_eq_getElem_cons hlt, List.take_append_drop]

theorem LineOk.text_eq (h : LineOk (buf, len)) (hnul : buf.toList.getD len 0 = 0) :
    buf.text.bytes = buf.toList.take len := by
  obtain ⟨rest, hrest⟩ := h.toList_eq
  rw [hnul] at hrest
  rw [CBuffer.text, hrest]
  exact (congrArg CString.bytes (CString.ofBuffer_append_nul ⟨_, h.nulFree⟩ rest)).trans
    (by rw [← hrest])

theorem LineOk.lt_length_text (h : LineOk (buf, len)) (hbyte : buf.toList.getD len 0 ≠ 0) :
    len < buf.text.length := by
  obtain ⟨rest, hrest⟩ := h.toList_eq
  have hfree : ∀ b ∈ buf.toList.take len ++ [buf.toList.getD len 0], decide (b ≠ 0) = true := by
    intro b hb
    rcases List.mem_append.mp hb with hb | hb
    · exact decide_ne_of_not_mem h.nulFree b hb
    · rw [List.mem_singleton.mp hb]
      exact decide_eq_true hbyte
  have hlen : (buf.toList.take len).length = len := by
    rw [List.length_take, Vector.length_toList]
    exact Nat.min_eq_left (Nat.le_trans h.fits (by decide))
  have htext : buf.text.bytes =
      (buf.toList.take len ++ [buf.toList.getD len 0]) ++ rest.takeWhile (· ≠ 0) := by
    rw [← List.takeWhile_append_of_pos hfree, List.append_assoc, List.singleton_append, ← hrest]
    rfl
  unfold CString.length
  rw [htext, List.length_append, List.length_append, hlen, List.length_singleton]
  omega

end Draft

section Browsing

/-- The session shows entry `pos` of the history, and the line of `start` is its draft. -/
structure Browsing (start s : TelnetSess) (pos : Nat) : Prop where
  state : s.state = .shell
  historyPos : s.historyPos = pos
  inside : pos < start.historyCount
  history : s.history = start.history
  count : s.historyCount = start.historyCount
  draft : s.historyDraft.text = start.line.text.take (lineMax - 1)

variable {start s : TelnetSess} {pos : Nat}

/-- The first Up shows the newest entry and saves the draft. -/
theorem Browsing.first (hstate : start.state = .shell) (hpos : start.historyPos = -1)
    (hcount : 0 < start.historyCount) : Browsing start start.recallUp (start.historyCount - 1) := by
  have hleft : ¬(start.state ≠ .shell ∨ start.historyCount = 0) := by
    rintro (h | h)
    · exact h hstate
    · omega
  rw [TelnetSess.recallUp, if_neg hleft, if_pos (by omega), recalled_eq]
  exact {
    state := hstate
    historyPos := by
      show (start.historyCount : Int) - 1 = _
      omega
    inside := Nat.sub_lt hcount Nat.one_pos
    history := rfl
    count := rfl
    draft := CBuffer.text_snprintf _ _ (by decide) }

/-- A further Up shows the entry before, and stays at the oldest one. -/
theorem Browsing.up (h : Browsing start s pos) : Browsing start s.recallUp (pos - 1) := by
  have hpos := h.historyPos
  have hinside := h.inside
  have hleft : ¬(s.state ≠ .shell ∨ s.historyCount = 0) := by
    rintro (hstate | hcount)
    · exact hstate h.state
    · rw [h.count] at hcount
      omega
  rw [TelnetSess.recallUp, if_neg hleft, if_neg (by omega)]
  split_ifs with hzero
  · rw [recalled_eq]
    exact {
      state := h.state
      historyPos := by
        show s.historyPos - 1 = _
        omega
      inside := by omega
      history := h.history
      count := h.count
      draft := h.draft }
  · obtain rfl : pos = 0 := by omega
    exact h

/-- `nv_telnet_history_down` does not return at its first test. -/
theorem Browsing.recalls (h : Browsing start s pos) : ¬(s.state ≠ .shell ∨ s.historyPos < 0) := by
  have hpos := h.historyPos
  rintro (hstate | hneg)
  · exact hstate h.state
  · omega

theorem Browsing.down (h : Browsing start s pos) (hnext : pos + 1 < start.historyCount) :
    Browsing start s.recallDown (pos + 1) := by
  have hpos := h.historyPos
  have hcount := h.count
  rw [TelnetSess.recallDown, if_neg h.recalls, if_neg (by omega), recalled_eq]
  exact {
    state := h.state
    historyPos := by
      show s.historyPos + 1 = _
      omega
    inside := hnext
    history := h.history
    count := h.count
    draft := h.draft }

theorem take_recalled (s : TelnetSess) (entry : CString) :
    (s.putLine entry).terminate.line.toList.take (s.putLine entry).terminate.lineLen =
      (s.line.snprintf entry).text.bytes := by
  rw [recalled_eq, CBuffer.poke_toList, List.take_set_of_le (Nat.le_refl _), CBuffer.take_length_text]

/-- The Down at the newest entry brings the draft back. -/
theorem Browsing.back (h : Browsing start s pos) (hlast : pos + 1 = start.historyCount) :
    s.recallDown.historyPos = -1 ∧ s.recallDown.history = start.history ∧
      s.recallDown.historyCount = start.historyCount ∧
      s.recallDown.lineLen = (start.line.text.take (lineMax - 1)).length ∧
      s.recallDown.line.toList.take s.recallDown.lineLen =
        (start.line.text.take (lineMax - 1)).bytes := by
  have hpos := h.historyPos
  have hcount := h.count
  have htext : (s.line.snprintf s.historyDraft.text).text =
      start.line.text.take (lineMax - 1) := by
    rw [CBuffer.text_snprintf _ _ (by decide), h.draft]
    exact CString.take_eq_self (CString.length_take_le _ _)
  rw [TelnetSess.recallDown, if_neg h.recalls, if_pos (by omega)]
  refine ⟨rfl, h.history, h.count, congrArg CString.length htext, ?_⟩
  rw [← htext]
  exact take_recalled { s with historyPos := -1 } s.historyDraft.text

theorem Browsing.ups (hstate : start.state = .shell) (hpos : start.historyPos = -1)
    (hcount : 0 < start.historyCount) (k : Nat) :
    Browsing start (TelnetSess.recallUp^[k + 1] start) (start.historyCount - (k + 1)) := by
  induction k with
  | zero => exact Browsing.first hstate hpos hcount
  | succ k ih =>
      rw [Function.iterate_succ_apply', ← Nat.sub_sub]
      exact ih.up

theorem Browsing.downs (h : Browsing start s pos) {j : Nat} (hj : pos + j < start.historyCount) :
    Browsing start (TelnetSess.recallDown^[j] s) (pos + j) := by
  induction j with
  | zero => exact h
  | succ j ih =>
      rw [Function.iterate_succ_apply']
      exact (ih (by omega)).down (by omega)

/-- The keys act on the session alone. -/
theorem sess_browse (st : TelnetState) (k j : Nat) :
    (nvTelnetHistoryDown^[j] (nvTelnetHistoryUp^[k] st)).sess =
      TelnetSess.recallDown^[j] (TelnetSess.recallUp^[k] st.sess) := by
  have hup : Function.Semiconj TelnetState.sess nvTelnetHistoryUp TelnetSess.recallUp :=
    sess_historyUp
  have hdown : Function.Semiconj TelnetState.sess nvTelnetHistoryDown TelnetSess.recallDown :=
    sess_historyDown
  rw [(hdown.iterate_right j).eq, (hup.iterate_right k).eq]

/--
In a session that edits a line, browsing the history and coming back changes no
entry, and brings the edited text back exactly when a NUL stands behind it.
-/
theorem nvTelnetHistory_browse
    (env : TelnetEnv)
    (cli : CliState)
    (sessions : List Nat)
    (self : Nat)
    (cfd : Int)
    (as : List TelnetAction)
    (st : TelnetState)
    (hst : st = Transition.run (telnetStep env) (nvTelnetSessStart env cli sessions self cfd) as)
    (hopen : st.freed = false)
    (hstate : st.sess.state = .shell)
    (hpos : st.sess.historyPos = -1)
    (hcount : 0 < st.sess.historyCount)
    (k : Nat)
    (hk : 1 ≤ k) :
    ∃ m, let after := (nvTelnetHistoryDown^[m] (nvTelnetHistoryUp^[k] st)).sess
      after.historyPos = -1 ∧
        (∀ j < m, (nvTelnetHistoryDown^[j] (nvTelnetHistoryUp^[k] st)).sess.historyPos ≠ -1) ∧
        after.history = st.sess.history ∧ after.historyCount = st.sess.historyCount ∧
        (after.lineLen = st.sess.lineLen ∧
            after.line.toList.take after.lineLen = st.sess.line.toList.take st.sess.lineLen ↔
          st.sess.line.toList.getD st.sess.lineLen 0 = 0) := by
  have hline : LineOk (st.sess.line, st.sess.lineLen) := by
    have hrun := Transition.run_invariant (OpenLineOk.step env)
      (openLineOk_start env cli sessions self cfd) as
    rw [← hst] at hrun
    exact hrun.resolve_left (by simp [hopen])
  obtain ⟨k, rfl⟩ : ∃ n, k = n + 1 := ⟨k - 1, by omega⟩
  have hup := Browsing.ups hstate hpos hcount k
  have hinside := hup.inside
  generalize st.sess.historyCount - (k + 1) = pos at hup hinside
  -- As many Downs as it takes to pass the newest entry.
  refine ⟨st.sess.historyCount - pos, ?_⟩
  have hsteps : st.sess.historyCount - pos = (st.sess.historyCount - 1 - pos) + 1 := by omega
  have hback := (hup.downs (j := st.sess.historyCount - 1 - pos) (by omega)).back (by omega)
  have hlast := Function.iterate_succ_apply' TelnetSess.recallDown
    (st.sess.historyCount - 1 - pos) (TelnetSess.recallUp^[k + 1] st.sess)
  rw [← hlast, show (st.sess.historyCount - 1 - pos).succ = st.sess.historyCount - pos
    from hsteps.symm] at hback
  simp only [sess_browse]
  obtain ⟨hend, hhistory, hcount', hlen, htext⟩ := hback
  refine ⟨hend, ?_, hhistory, hcount', ?_⟩
  · intro j hj
    rw [(hup.downs (j := j) (by omega)).historyPos]
    omega
  · have htake : st.sess.line.text.take (lineMax - 1) = st.sess.line.text :=
      CString.take_eq_self (CBuffer.length_text_le hline.last)
    rw [htake] at hlen htext
    rw [htext, hlen]
    constructor
    · rintro ⟨hsame, -⟩
      by_contra hbyte
      exact Nat.ne_of_gt (hline.lt_length_text hbyte) hsame
    · intro hnul
      have hbytes := hline.text_eq hnul
      refine ⟨?_, hbytes⟩
      rw [CString.length, hbytes, List.length_take, Vector.length_toList]
      exact Nat.min_eq_left (Nat.le_trans hline.fits (by decide))

/-- A client logs in, runs `ls`, and types the given text. -/
def afterCommand (text : String) : TelnetState :=
  Transition.run (telnetStep plainEnv) (nvTelnetSessStart plainEnv plainCli [] 1 5)
    [.readable (some (lit "admin\rcorrect-horse\r").bytes), .readable (some (lit "ls\r").bytes),
      .readable (some (lit text).bytes)]

theorem two_characters_restored :
    (afterCommand "ab").sess.state = .shell ∧ (afterCommand "ab").sess.historyPos = -1 ∧
      (afterCommand "ab").sess.lineLen = 2 ∧
      ∃ m, (nvTelnetHistoryDown^[m] (nvTelnetHistoryUp^[1] (afterCommand "ab"))).sess.historyPos =
          -1 ∧
        (nvTelnetHistoryDown^[m] (nvTelnetHistoryUp^[1] (afterCommand "ab"))).sess.lineLen = 2 := by
  obtain ⟨hopen, hstate, hpos, hcount, hlen, hnul⟩ : (afterCommand "ab").freed = false ∧
      (afterCommand "ab").sess.state = .shell ∧ (afterCommand "ab").sess.historyPos = -1 ∧
      0 < (afterCommand "ab").sess.historyCount ∧ (afterCommand "ab").sess.lineLen = 2 ∧
      (afterCommand "ab").sess.line.toList.getD (afterCommand "ab").sess.lineLen 0 = 0 := by
    decide +kernel
  obtain ⟨m, hend, -, -, -, hiff⟩ := nvTelnetHistory_browse plainEnv plainCli [] 1 5 _
    (afterCommand "ab") rfl hopen hstate hpos hcount 1 (Nat.le_refl 1)
  exact ⟨hstate, hpos, hlen, m, hend, (hiff.mpr hnul).1.trans hlen⟩

/-- After `ls`, an `x` comes back as `xs`. -/
theorem one_character_not_restored :
    (afterCommand "x").freed = false ∧ (afterCommand "x").sess.state = .shell ∧
      (afterCommand "x").sess.historyPos = -1 ∧ (afterCommand "x").sess.historyCount = 1 ∧
      (afterCommand "x").sess.line.toList.take (afterCommand "x").sess.lineLen = [120] ∧
      (nvTelnetHistoryUp (afterCommand "x")).sess.historyPos = 0 ∧
      (nvTelnetHistoryDown (nvTelnetHistoryUp (afterCommand "x"))).sess.historyPos = -1 ∧
      (nvTelnetHistoryDown (nvTelnetHistoryUp (afterCommand "x"))).sess.lineLen = 2 ∧
      (nvTelnetHistoryDown (nvTelnetHistoryUp (afterCommand "x"))).sess.line.toList.take 2 =
        [120, 115] := by
  decide +kernel

end Browsing

end Libnv.Cli
