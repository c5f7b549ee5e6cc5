import Libnv.Cli.Chunks

/-!
# Keys

A key of a terminal arrives as one byte or as a control sequence: ESC, `[`,
parameter bytes, intermediate bytes and a final byte.  `nv_telnet_escape_feed`
looks at three bytes only.  The arrow keys have no parameters and are recognised;
of a longer sequence everything behind the third byte is taken as typed.

What the functions do to the session is stated without the rest of the state, so
that whole sequences of keys are computed on sessions.
-/

namespace Libnv.Cli

open CText

section Session

namespace TelnetSess

/-- What `nv_telnet_history_up` does to the session. -/
def recallUp (s : TelnetSess) : TelnetSess :=
  if s.state ≠ .shell ∨ s.historyCount = 0 then s
  else if s.historyPos < 0 then
    ({ s with
      historyDraft := s.historyDraft.snprintf s.line.text
      historyPos := s.historyCount - 1 }.putLine (s.entry (s.historyCount - 1))).terminate
  else if 0 < s.historyPos then
    ({ s with historyPos := s.historyPos - 1 }.putLine
      (s.entry (s.historyPos - 1).toNat)).terminate
  else s

/-- What `nv_telnet_history_down` does to the session. -/
def recallDown (s : TelnetSess) : TelnetSess :=
  if s.state ≠ .shell ∨ s.historyPos < 0 then s
  else if (s.historyCount : Int) - 1 ≤ s.historyPos then
    ({ s with historyPos := -1 }.putLine s.historyDraft.text).terminate
  else
    ({ s with historyPos := s.historyPos + 1 }.putLine
      (s.entry (s.historyPos + 1).toNat)).terminate

/-- The session with other contents of `esc_buf` and `esc_len`. -/
def withEscape (s : TelnetSess) (escape : CBuffer 8 × Nat) : TelnetSess :=
  { s with escBuf := escape.1, escLen := escape.2 }

theorem recallUp_withEscape (s : TelnetSess) (escape : CBuffer 8 × Nat) :
    (s.withEscape escape).recallUp = s.recallUp.withEscape escape := by
  simp only [recallUp, apply_ite (withEscape · escape)]
  rfl

theorem recallDown_withEscape (s : TelnetSess) (escape : CBuffer 8 × Nat) :
    (s.withEscape escape).recallDown = s.recallDown.withEscape escape := by
  simp only [recallDown, apply_ite (withEscape · escape)]
  rfl

end TelnetSess

variable (st : TelnetState)

theorem sess_redraw : (nvTelnetRedrawLine st).sess = st.sess.terminate :=
  sess_write _ _

theorem sess_historyUp : (nvTelnetHistoryUp st).sess = st.sess.recallUp := by
  simp only [nvTelnetHistoryUp, TelnetState.log, TelnetSess.recallUp]
  split_ifs
  · rfl
  · exact sess_redraw _
  · exact sess_redraw _
  · rfl

theorem sess_historyDown : (nvTelnetHistoryDown st).sess = st.sess.recallDown := by
  simp only [nvTelnetHistoryDown, TelnetState.log, TelnetSess.recallDown]
  split_ifs
  · rfl
  · exact sess_redraw _
  · exact sess_redraw _

/-- A byte that a terminal shows. -/
def isPrintable (c : UInt8) : Bool :=
  32 ≤ c ∧ c ≤ 126

theorem sess_input_typed (env : TelnetEnv) {c : UInt8} (hcontrol : ¬c < 32) (hdelete : c ≠ 127) :
    (nvTelnetInput env st c).sess = st.sess.typed c := by
  have hne : c ≠ 13 ∧ c ≠ 10 ∧ ¬(c = 127 ∨ c = 8) ∧ c ≠ 9 := by
    refine ⟨?_, ?_, ?_, ?_⟩
    · rintro rfl
      exact hcontrol (by decide)
    · rintro rfl
      exact hcontrol (by decide)
    · rintro (rfl | rfl)
      · exact hdelete rfl
      · exact hcontrol (by decide)
    · rintro rfl
      exact hcontrol (by decide)
  unfold nvTelnetInput TelnetSess.typed
  rw [if_neg hne.1, if_neg hne.2.1, if_neg hne.2.2.1, if_neg hne.2.2.2, if_neg hcontrol]
  split_ifs
  · exact sess_writeRaw _ _
  · exact sess_writeRaw _ _
  · rfl

end Session

section Escape

/-- The history function that an escape sequence calls, on the session. -/
def TelnetSess.recall (s : TelnetSess) (seq : CString) : TelnetSess :=
  if contains seq (lit "[A") ∨ contains seq (lit "OA") then s.recallUp
  else if contains seq (lit "[B") ∨ contains seq (lit "OB") then s.recallDown
  else s

/-- The session with the byte in `esc_buf`. -/
def TelnetState.takeByte (st : TelnetState) (c : UInt8) : TelnetState :=
  st.upd fun s => s.withEscape (escapePut st.escape c)

theorem nvTelnetEscapeFeed_eq (st : TelnetState) (c : UInt8) :
    nvTelnetEscapeFeed st c =
      if st.sess.escLen = 0 ∧ c ≠ 0x1b then (st, false)
      else
        let seq := (escapePut st.escape c).1
        if contains seq.text (lit "[A") ∨ contains seq.text (lit "OA") then
          ((nvTelnetHistoryUp (st.takeByte c)).upd fun s => { s with escLen := 0 }, true)
        else if contains seq.text (lit "[B") ∨ contains seq.text (lit "OB") then
          ((nvTelnetHistoryDown (st.takeByte c)).upd fun s => { s with escLen := 0 }, true)
        else if 3 ≤ (escapePut st.escape c).2 ∨ 2 ≤ (escapePut st.escape c).2 ∧
            seq.toList.getD 1 0 ≠ 0x5b ∧ seq.toList.getD 1 0 ≠ 0x4f then
          ((st.takeByte c).upd fun s => { s with escLen := 0 }, true)
        else (st.takeByte c, true) := by
  have htake : (if st.sess.escLen < 7 then
      st.upd fun s =>
        { s with
          escBuf := (s.escBuf.poke s.escLen c).poke (s.escLen + 1) 0
          escLen := s.escLen + 1 }
      else st) = st.takeByte c := by
    unfold TelnetState.takeByte
    by_cases hroom : st.sess.escLen < 7
    · rw [show escapePut st.escape c = _ from if_pos hroom, if_pos hroom]
      rfl
    · rw [show escapePut st.escape c = _ from if_neg hroom, if_neg hroom]
      rfl
  unfold nvTelnetEscapeFeed
  rw [htake]
  rfl

/-- A byte of an escape sequence goes into `esc_buf`, and may recall a line. -/
theorem sess_tryEscape (st : TelnetState) {c : UInt8} (h : 0 < st.sess.escLen ∨ c = 0x1b) :
    (tryEscape st c).1.sess =
      (st.sess.recall (escapePut st.escape c).1.text).withEscape (escapeAfter st.escape c) := by
  rw [← (tryEscape_taken st h).2]
  have hfirst : ¬(st.sess.escLen = 0 ∧ c ≠ 0x1b) := by
    rintro ⟨hlen, hc⟩
    exact h.elim (fun hpos => by omega) hc
  have hup : (nvTelnetHistoryUp (st.takeByte c)).sess =
      st.sess.recallUp.withEscape (escapePut st.escape c) :=
    (sess_historyUp _).trans (TelnetSess.recallUp_withEscape _ _)
  have hdown : (nvTelnetHistoryDown (st.takeByte c)).sess =
      st.sess.recallDown.withEscape (escapePut st.escape c) :=
    (sess_historyDown _).trans (TelnetSess.recallDown_withEscape _ _)
  rw [tryEscape, if_pos h, nvTelnetEscapeFeed_eq, if_neg hfirst]
  unfold TelnetSess.recall
  dsimp only
  split_ifs
  · simp only [TelnetState.upd, TelnetState.escape, hup]
    rfl
  · simp only [TelnetState.upd, TelnetState.escape, hdown]
    rfl
  · rfl
  · rfl

variable {escape : CBuffer 8 × Nat} {seq right : List UInt8} {x y : UInt8}

/-- A byte is appended to those that `esc_buf` holds. -/
theorem escapePut_toList (h : escape.1.toList = seq ++ x :: y :: right)
    (hlen : escape.2 = seq.length) (hroom : seq.length < 7) (c : UInt8) :
    (escapePut escape c).1.toList = seq ++ c :: 0 :: right ∧
      (escapePut escape c).2 = seq.length + 1 := by
  have hput : escapePut escape c =
      ((escape.1.poke seq.length c).poke (seq.length + 1) 0, seq.length + 1) := by
    rw [escapePut, hlen, if_pos hroom]
  have hfirst : (escape.1.poke seq.length c).toList = (seq ++ [c]) ++ y :: right := by
    rw [CBuffer.poke_append h c]
    simp
  have hsecond := CBuffer.poke_append hfirst 0
  rw [hput]
  simpa using hsecond

/-- The sequence has the bytes of an arrow key in it, in one of the two forms. -/
def arrow (final : UInt8) (seq : List UInt8) : Bool :=
  [0x5b, final] <:+: seq ∨ [0x4f, final] <:+: seq

/-- `esc_len` when the bytes of `seq` have been taken. -/
def escapeLen (seq : List UInt8) : Nat :=
  if arrow 0x41 seq ∨ arrow 0x42 seq then 0
  else if 3 ≤ seq.length ∨ 2 ≤ seq.length ∧ seq.getD 1 0 ≠ 0x5b ∧ seq.getD 1 0 ≠ 0x4f then 0
  else seq.length

theorem TelnetSess.recall_eq (s : TelnetSess) (seq : CString) :
    s.recall seq =
      if arrow 0x41 seq.bytes then s.recallUp
      else if arrow 0x42 seq.bytes then s.recallDown
      else s := by
  have hbytes : ∀ t, contains seq t = true ↔ t.bytes <:+: seq.bytes := fun t => decide_eq_true_iff
  simp only [TelnetSess.recall, arrow, hbytes, decide_eq_true_eq]
  rfl

/-- What is left in `esc_buf` and `esc_len` depends on the bytes of the sequence only. -/
theorem escapeAfter_bytes (h : escape.1.toList = seq ++ x :: y :: right)
    (hlen : escape.2 = seq.length) (hroom : seq.length < 7) {c : UInt8} (hfree : 0 ∉ seq ++ [c]) :
    (escapePut escape c).1.text.bytes = seq ++ [c] ∧
      escapeAfter escape c = ((escapePut escape c).1, escapeLen (seq ++ [c])) := by
  obtain ⟨hlist, hnext⟩ := escapePut_toList h hlen hroom c
  have htext : (escapePut escape c).1.text.bytes = seq ++ [c] := by
    rw [CBuffer.text, hlist]
    simpa using congrArg CString.bytes (CString.ofBuffer_append_nul ⟨seq ++ [c], hfree⟩ right)
  refine ⟨htext, ?_⟩
  have hsecond : 2 ≤ (seq ++ [c]).length →
      (escapePut escape c).1.toList.getD 1 0 = (seq ++ [c]).getD 1 0 := by
    intro htwo
    rw [hlist, show seq ++ c :: 0 :: right = (seq ++ [c]) ++ 0 :: right by simp,
      List.getD_append _ _ _ _ htwo]
  have hbytes : ∀ t, contains (escapePut escape c).1.text t = true ↔ t.bytes <:+: seq ++ [c] := by
    intro t
    rw [← htext]
    exact decide_eq_true_iff
  have hup : (contains (escapePut escape c).1.text (lit "[A") = true ∨
      contains (escapePut escape c).1.text (lit "OA") = true) ↔ arrow 0x41 (seq ++ [c]) = true := by
    rw [hbytes, hbytes]
    exact decide_eq_true_iff.symm
  have hdown : (contains (escapePut escape c).1.text (lit "[B") = true ∨
      contains (escapePut escape c).1.text (lit "OB") = true) ↔ arrow 0x42 (seq ++ [c]) = true := by
    rw [hbytes, hbytes]
    exact decide_eq_true_iff.symm
  have hcount : (escapePut escape c).2 = (seq ++ [c]).length := by simpa using hnext
  have hends : (3 ≤ (escapePut escape c).2 ∨ 2 ≤ (escapePut escape c).2 ∧
      (escapePut escape c).1.toList.getD 1 0 ≠ 0x5b ∧
      (escapePut escape c).1.toList.getD 1 0 ≠ 0x4f) ↔
      (3 ≤ (seq ++ [c]).length ∨ 2 ≤ (seq ++ [c]).length ∧
        (seq ++ [c]).getD 1 0 ≠ 0x5b ∧ (seq ++ [c]).getD 1 0 ≠ 0x4f) := by
    rw [hcount]
    exact or_congr_right (and_congr_right fun htwo => by rw [hsecond htwo])
  have hafter : escapeAfter escape c =
      if contains (escapePut escape c).1.text (lit "[A") ∨
          contains (escapePut escape c).1.text (lit "OA") then ((escapePut escape c).1, 0)
      else if contains (escapePut escape c).1.text (lit "[B") ∨
          contains (escapePut escape c).1.text (lit "OB") then ((escapePut escape c).1, 0)
      else if 3 ≤ (escapePut escape c).2 ∨ 2 ≤ (escapePut escape c).2 ∧
          (escapePut escape c).1.toList.getD 1 0 ≠ 0x5b ∧
          (escapePut escape c).1.toList.getD 1 0 ≠ 0x4f then
        ((escapePut escape c).1, 0)
      else escapePut escape c := rfl
  rw [hafter]
  simp only [hup, hdown, hends, escapeLen]
  by_cases h₁ : arrow 0x41 (seq ++ [c]) = true
  · simp only [h₁, true_or, if_true]
  · by_cases h₂ : arrow 0x42 (seq ++ [c]) = true
    · simp only [h₂, or_true, if_true, ite_self]
    · rw [if_neg h₁, if_neg h₂, if_neg (not_or.mpr ⟨h₁, h₂⟩)]
      split_ifs
      · rfl
      · exact Prod.ext rfl hcount

/-- A round of the loop with a byte of an escape sequence, on the session. -/
theorem feed_sequence (env : TelnetEnv) (st : TelnetState)
    (h : st.sess.escBuf.toList = seq ++ x :: y :: right) (hlen : st.sess.escLen = seq.length)
    (hroom : seq.length < 7) {c : UInt8} (hfree : 0 ∉ seq ++ [c]) (hstart : seq ≠ [] ∨ c = 0x1b) :
    ∃ (st' : TelnetState) (buf : CBuffer 8), buf.toList = seq ++ c :: 0 :: right ∧
      st'.sess =
        (if arrow 0x41 (seq ++ [c]) then st.sess.recallUp
          else if arrow 0x42 (seq ++ [c]) then st.sess.recallDown
          else st.sess).withEscape (buf, escapeLen (seq ++ [c])) ∧
      ∀ rest, nvTelnetFeed env st (c :: rest) = nvTelnetFeed env st' rest := by
  have htaken : 0 < (st.log (.byte c)).sess.escLen ∨ c = 0x1b := by
    refine hstart.imp_left fun hne => ?_
    rw [show (st.log (.byte c)).sess.escLen = seq.length from hlen]
    exact List.length_pos_of_ne_nil hne
  have hbuf : st.escape.1.toList = seq ++ x :: y :: right := h
  obtain ⟨hbytes, hafter⟩ := escapeAfter_bytes hbuf hlen hroom hfree
  refine ⟨(tryEscape (st.log (.byte c)) c).1, (escapePut st.escape c).1,
    (escapePut_toList hbuf hlen hroom c).1, ?_, fun rest => ?_⟩
  · rw [sess_tryEscape _ htaken, TelnetSess.recall_eq,
      show (st.log (.byte c)).escape = st.escape from rfl, hbytes, hafter]
    rfl
  · rw [nvTelnetFeed]
    simp only [(tryEscape_taken (st.log (.byte c)) htaken).1, if_true]

theorem arrow_third (final c : UInt8) : arrow final [0x1b, 0x5b, c] = decide (c = final) := by
  have hiff : ([0x5b, final] <:+: [0x1b, 0x5b, c] ∨ [0x4f, final] <:+: [0x1b, 0x5b, c]) ↔
      c = final := by
    simp only [List.infix_cons_iff, List.cons_prefix_cons]
    simp [eq_comm (a := final)]
  exact decide_eq_decide.mpr hiff

/-- ESC, `[` and a third byte: the sequence ends there, and two third bytes recall a line. -/
theorem feed_three (env : TelnetEnv) (st : TelnetState) (hlen : st.sess.escLen = 0) {c : UInt8}
    (hc : c ≠ 0) :
    ∃ (st' : TelnetState) (buf : CBuffer 8),
      st'.sess =
        (if c = 0x41 then st.sess.recallUp
          else if c = 0x42 then st.sess.recallDown
          else st.sess).withEscape (buf, 0) ∧
      ∀ rest, nvTelnetFeed env st (0x1b :: 0x5b :: c :: rest) = nvTelnetFeed env st' rest := by
  have hsize : st.sess.escBuf.toList.length = 8 := Vector.length_toList
  obtain ⟨x₀, x₁, x₂, x₃, right, hbuf⟩ :
      ∃ x₀ x₁ x₂ x₃ right, st.sess.escBuf.toList = [] ++ x₀ :: x₁ :: x₂ :: x₃ :: right := by
    rcases hlist : st.sess.escBuf.toList with _ | ⟨x₀, _ | ⟨x₁, _ | ⟨x₂, _ | ⟨x₃, right⟩⟩⟩⟩
    all_goals first | exact ⟨x₀, x₁, x₂, x₃, right, rfl⟩ | simp [hlist] at hsize
  obtain ⟨st₁, b₁, hb₁, hst₁, hfeed₁⟩ := feed_sequence env st hbuf hlen (by decide)
    (show (0 : UInt8) ∉ [] ++ [0x1b] by decide) (Or.inr rfl)
  have hsess₁ : st₁.sess = st.sess.withEscape (b₁, 1) := hst₁
  have hbuf₁ : st₁.sess.escBuf.toList = [0x1b] ++ 0 :: x₂ :: x₃ :: right := by
    rw [hsess₁]
    exact hb₁
  obtain ⟨st₂, b₂, hb₂, hst₂, hfeed₂⟩ := feed_sequence env st₁ hbuf₁
    (by rw [hsess₁]; rfl) (by decide) (show (0 : UInt8) ∉ [0x1b] ++ [0x5b] by decide)
    (Or.inl (by decide))
  have hsess₂ : st₂.sess = st.sess.withEscape (b₂, 2) := by
    rw [hst₂, hsess₁]
    rfl
  have hbuf₂ : st₂.sess.escBuf.toList = [0x1b, 0x5b] ++ 0 :: x₃ :: right := by
    rw [hsess₂]
    exact hb₂
  obtain ⟨st₃, b₃, -, hst₃, hfeed₃⟩ := feed_sequence env st₂ hbuf₂
    (by rw [hsess₂]; rfl) (by decide)
    (show (0 : UInt8) ∉ [0x1b, 0x5b] ++ [c] by simpa using hc.symm) (Or.inl (by decide))
  refine ⟨st₃, b₃, ?_, fun rest => by rw [hfeed₁, hfeed₂, hfeed₃]⟩
  have hzero : escapeLen [0x1b, 0x5b, c] = 0 := by
    simp [escapeLen]
  rw [hst₃, hsess₂]
  simp only [List.cons_append, List.nil_append, arrow_third, decide_eq_true_eq, hzero,
    TelnetSess.recallUp_withEscape, TelnetSess.recallDown_withEscape]
  split_ifs <;> rfl

end Escape

theorem TelnetSess.typed_escLen (s : TelnetSess) (c : UInt8) : (s.typed c).escLen = s.escLen := by
  unfold typed
  split_ifs <;> rfl

theorem feed_printable (env : TelnetEnv) (st : TelnetState) (hlen : st.sess.escLen = 0)
    {bs : List UInt8} (hbs : ∀ c ∈ bs, isPrintable c = true) :
    (nvTelnetFeed env st bs).sess = bs.foldl TelnetSess.typed st.sess := by
  induction bs generalizing st with
  | nil => rfl
  | cons c bs ih =>
      obtain ⟨hc, hrest⟩ := List.forall_mem_cons.mp hbs
      have hrange : 32 ≤ c ∧ c ≤ 126 := of_decide_eq_true hc
      have hplain : ¬(0 < st.escape.2 ∨ c = 0x1b) := by
        rintro (hpos | rfl)
        · exact Nat.lt_irrefl 0 (hlen ▸ hpos)
        · exact absurd hrange.1 (by decide)
      have hiac : c ≠ 255 := by
        rintro rfl
        exact absurd hrange.2 (by decide)
      have hdelete : c ≠ 127 := by
        rintro rfl
        exact absurd hrange.2 (by decide)
      have hsess : (nvTelnetInput env (st.log (.byte c)) c).sess = st.sess.typed c :=
        sess_input_typed _ env (UInt8.not_lt.mpr hrange.1) hdelete
      rw [feed_plain hplain hiac, ih _ (by rw [hsess, TelnetSess.typed_escLen, hlen]) hrest, hsess,
        List.foldl_cons]

theorem foldl_typed_full {s : TelnetSess} (hfull : lineMax - 1 ≤ s.lineLen) (bs : List UInt8) :
    bs.foldl TelnetSess.typed s = s := by
  induction bs with
  | nil => rfl
  | cons c bs ih =>
      have htyped : s.typed c = s := if_neg (Nat.not_lt.mpr hfull)
      rw [List.foldl_cons, htyped, ih]

/-- Grows with every character that is inserted; zero while the history is shown. -/
def TelnetSess.inserted (s : TelnetSess) : Nat :=
  if s.state = .shell ∧ 0 ≤ s.historyPos then 0 else s.lineLen + 1

theorem TelnetSess.inserted_lt_typed {s : TelnetSess} (hroom : s.lineLen < lineMax - 1)
    (c : UInt8) : s.inserted < (s.typed c).inserted := by
  unfold typed inserted
  rw [if_pos hroom]
  by_cases hshown : s.state = .shell ∧ 0 ≤ s.historyPos
  · simp [hshown]
  · simp [hshown]

theorem TelnetSess.inserted_le_foldl (s : TelnetSess) (bs : List UInt8) :
    s.inserted ≤ (bs.foldl TelnetSess.typed s).inserted := by
  induction bs generalizing s with
  | nil => exact Nat.le_refl _
  | cons c bs ih =>
      refine Nat.le_trans ?_ (ih (s.typed c))
      by_cases hroom : s.lineLen < lineMax - 1
      · exact Nat.le_of_lt (inserted_lt_typed hroom c)
      · rw [typed, if_neg hroom]

/-- ESC, `[`, parameter bytes, intermediate bytes and a final byte. -/
structure ControlSequence where
  params : List UInt8
  intermediates : List UInt8
  final : UInt8
  params_range : ∀ b ∈ params, 0x30 ≤ b ∧ b ≤ 0x3f
  intermediates_range : ∀ b ∈ intermediates, 0x20 ≤ b ∧ b ≤ 0x2f
  final_range : 0x40 ≤ final ∧ final ≤ 0x7e

def shellSession : TelnetState :=
  nvTelnetFeed plainEnv freshSession (lit "admin\rcorrect-horse\r").bytes

namespace ControlSequence

variable (q : ControlSequence)

/-- What follows ESC and `[`. -/
def body : List UInt8 :=
  q.params ++ q.intermediates ++ [q.final]

def bytes : List UInt8 :=
  0x1b :: 0x5b :: q.body

/-- The session that the sequence is for: the arrow keys recall a line, the others do nothing. -/
def meant (st : TelnetState) : TelnetSess :=
  if q.bytes = [0x1b, 0x5b, 0x41] then (nvTelnetHistoryUp st).sess
  else if q.bytes = [0x1b, 0x5b, 0x42] then (nvTelnetHistoryDown st).sess
  else st.sess

/-- The sequence is consumed, and apart from `esc_buf` the session is as it should be. -/
def LeavesLine (env : TelnetEnv) (st : TelnetState) : Prop :=
  let after := (nvTelnetFeed env st q.bytes).sess
  after.escLen = 0 ∧ after = (q.meant st).withEscape (after.escBuf, 0)

theorem isPrintable_of_mem {b : UInt8} (h : b ∈ q.body) : isPrintable b = true := by
  have hrange : 0x20 ≤ b ∧ b ≤ 0x7e := by
    simp only [body, List.mem_append, List.mem_singleton] at h
    rcases h with (h | h) | rfl
    · obtain ⟨hlo, hhi⟩ := q.params_range b h
      exact ⟨UInt8.le_trans (by decide) hlo, UInt8.le_trans hhi (by decide)⟩
    · obtain ⟨hlo, hhi⟩ := q.intermediates_range b h
      exact ⟨hlo, UInt8.le_trans hhi (by decide)⟩
    · exact ⟨UInt8.le_trans (by decide) q.final_range.1, q.final_range.2⟩
  simpa [isPrintable] using hrange

/-- A parameter byte and an intermediate byte are no letters. -/
theorem le_of_mem {b : UInt8} (h : b ∈ q.params ++ q.intermediates) : b ≤ 0x3f := by
  rcases List.mem_append.mp h with h | h
  · exact (q.params_range b h).2
  · exact UInt8.le_trans (q.intermediates_range b h).2 (by decide)

theorem ne_zero_of_mem {b : UInt8} (h : b ∈ q.body) : b ≠ 0 := by
  rintro rfl
  exact absurd (q.isPrintable_of_mem h) (by decide)

/-- A sequence without parameters is recognised as a whole. -/
theorem leavesLine_short (env : TelnetEnv) {st : TelnetState} (hlen : st.sess.escLen = 0)
    (hshort : q.params ++ q.intermediates = []) : q.LeavesLine env st := by
  have hbody : q.body = [q.final] := by
    rw [body, hshort, List.nil_append]
  have hfinal : q.final ≠ 0 := q.ne_zero_of_mem (by simp [hbody])
  obtain ⟨st', buf, hsess, hfeed⟩ := feed_three env st hlen hfinal
  have hafter : (nvTelnetFeed env st q.bytes).sess = st'.sess := by
    rw [bytes, hbody, hfeed, nvTelnetFeed]
  have hmeant : q.meant st =
      if q.final = 0x41 then st.sess.recallUp
      else if q.final = 0x42 then st.sess.recallDown
      else st.sess := by
    simp only [meant, bytes, hbody, List.cons.injEq, and_true, true_and, sess_historyUp,
      sess_historyDown]
  rw [LeavesLine, hafter, hsess, hmeant]
  exact ⟨rfl, rfl⟩

/-- Of a longer sequence the first three bytes go, and the rest is typed. -/
theorem feed_long (env : TelnetEnv) {st : TelnetState} (hlen : st.sess.escLen = 0)
    (hlong : q.params ++ q.intermediates ≠ []) :
    ∃ (buf : CBuffer 8) (c : UInt8) (rest : List UInt8),
      (nvTelnetFeed env st q.bytes).sess =
        (c :: rest).foldl TelnetSess.typed (st.sess.withEscape (buf, 0)) ∧
      q.meant st = st.sess := by
  obtain ⟨b, more, hmore⟩ := List.exists_cons_of_ne_nil hlong
  obtain ⟨c, rest, hrest⟩ := List.exists_cons_of_ne_nil
    (List.append_ne_nil_of_right_ne_nil more (List.cons_ne_nil q.final []))
  have hbody : q.body = b :: c :: rest := by
    rw [body, hmore, List.cons_append, hrest]
  have hb : b ≤ 0x3f := q.le_of_mem (by simp [hmore])
  have hne : b ≠ 0x41 ∧ b ≠ 0x42 := by
    constructor
    · rintro rfl
      exact absurd hb (by decide)
    · rintro rfl
      exact absurd hb (by decide)
  have hzero : b ≠ 0 := q.ne_zero_of_mem (by simp [hbody])
  obtain ⟨st', buf, hsess, hfeed⟩ := feed_three env st hlen hzero
  rw [if_neg hne.1, if_neg hne.2] at hsess
  have hprintable : ∀ d ∈ c :: rest, isPrintable d = true := by
    intro d hd
    exact q.isPrintable_of_mem (by rw [hbody]; exact List.mem_cons_of_mem b hd)
  refine ⟨buf, c, rest, ?_, ?_⟩
  · rw [bytes, hbody, hfeed, feed_printable env st' (by rw [hsess]; rfl) hprintable, hsess]
  · simp [meant, bytes, hbody]

/--
A control sequence leaves the line alone exactly when it has neither parameter
nor intermediate bytes, or the line is full.
-/
theorem leavesLine_iff
    (env : TelnetEnv)
    (st : TelnetState)
    (hlen : st.sess.escLen = 0)
    (q : ControlSequence) :
    q.LeavesLine env st ↔
      (q.params = [] ∧ q.intermediates = []) ∨ lineMax - 1 ≤ st.sess.lineLen := by
  by_cases hshort : q.params ++ q.intermediates = []
  · exact iff_of_true (q.leavesLine_short env hlen hshort)
      (Or.inl (List.append_eq_nil_iff.mp hshort))
  · obtain ⟨buf, c, rest, hafter, hmeant⟩ := q.feed_long env hlen hshort
    have hparams : ¬(q.params = [] ∧ q.intermediates = []) :=
      fun h => hshort (List.append_eq_nil_iff.mpr h)
    rw [or_iff_right hparams, LeavesLine, hafter, hmeant]
    constructor
    · rintro ⟨-, hsame⟩
      by_contra hroom
      have hroom' : (st.sess.withEscape (buf, 0)).lineLen < lineMax - 1 := Nat.not_le.mp hroom
      have hgrows := Nat.lt_of_lt_of_le (TelnetSess.inserted_lt_typed hroom' c)
        (TelnetSess.inserted_le_foldl _ rest)
      rw [← List.foldl_cons, hsame] at hgrows
      exact Nat.lt_irrefl _ hgrows
    · intro hfull
      rw [foldl_typed_full (s := st.sess.withEscape (buf, 0)) hfull]
      exact ⟨rfl, rfl⟩

def rightArrow : ControlSequence where
  params := []
  intermediates := []
  final := 0x43
  params_range := by simp
  intermediates_range := by simp
  final_range := by decide

theorem rightArrow_leavesLine :
    shellSession.sess.state = .shell ∧ shellSession.sess.escLen = 0 ∧
      rightArrow.LeavesLine plainEnv shellSession := by
  have hstart : shellSession.sess.state = .shell ∧ shellSession.sess.escLen = 0 := by
    decide +kernel
  exact ⟨hstart.1, hstart.2,
    (leavesLine_iff plainEnv shellSession hstart.2 rightArrow).mpr (Or.inl ⟨rfl, rfl⟩)⟩

def deleteKey : ControlSequence where
  params := [0x33]
  intermediates := []
  final := 0x7e
  params_range := by simp
  intermediates_range := by simp
  final_range := by decide

/-- The last byte of the delete key is typed into the line. -/
theorem deleteKey_typed :
    shellSession.sess.state = .shell ∧ shellSession.sess.escLen = 0 ∧
      shellSession.sess.lineLen = 0 ∧
      (nvTelnetFeed plainEnv shellSession deleteKey.bytes).sess.lineLen = 1 ∧
      (nvTelnetFeed plainEnv shellSession deleteKey.bytes).sess.line.toList.take 1 = [0x7e] := by
  decide +kernel

end ControlSequence

end Libnv.Cli
