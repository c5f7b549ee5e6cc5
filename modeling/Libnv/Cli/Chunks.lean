import Libnv.Cli.Close

/-!
# Input that arrives in pieces

`nv_telnet_feed` is called once for each `read`, so TCP decides where the input
is cut.  The state of an escape sequence is kept in the session and survives the
cut.  A telnet command (IAC, the command byte and, for WILL, WONT, DO and DONT,
the option) is skipped by moving the index of the loop and is forgotten at the
end of the buffer: the bytes of it that arrive later are taken as typed.
-/

namespace Libnv.Cli

open CText

/-- `esc_buf` and `esc_len`. -/
def TelnetState.escape (st : TelnetState) : CBuffer 8 × Nat :=
  (st.sess.escBuf, st.sess.escLen)

/-- `esc_buf` and `esc_len` with one more byte. -/
def escapePut (escape : CBuffer 8 × Nat) (c : UInt8) : CBuffer 8 × Nat :=
  if escape.2 < 7 then ((escape.1.poke escape.2 c).poke (escape.2 + 1) 0, escape.2 + 1)
  else escape

/-- What `nv_telnet_escape_feed` makes of `esc_buf` and `esc_len` with a byte that it takes. -/
def escapeAfter (escape : CBuffer 8 × Nat) (c : UInt8) : CBuffer 8 × Nat :=
  let escape := escapePut escape c
  let seq := escape.1.text
  if contains seq (lit "[A") ∨ contains seq (lit "OA") then (escape.1, 0)
  else if contains seq (lit "[B") ∨ contains seq (lit "OB") then (escape.1, 0)
  else if 3 ≤ escape.2 ∨ 2 ≤ escape.2 ∧
      escape.1.toList.getD 1 0 ≠ 0x5b ∧ escape.1.toList.getD 1 0 ≠ 0x4f then
    (escape.1, 0)
  else escape

/-- WILL, WONT, DO or DONT: an option follows. -/
def takesOption (cmd : UInt8) : Bool :=
  251 ≤ cmd ∧ cmd ≤ 254

/-- What a telnet command still lacks. -/
inductive Pending where
  | nothing
  | command
  | option
deriving DecidableEq

/--
Where a buffer ends: the escape sequence that it leaves, and what is missing of
its last telnet command.  A byte of an escape sequence is no IAC.
-/
def scan : CBuffer 8 × Nat → List UInt8 → (CBuffer 8 × Nat) × Pending
  | escape, [] => (escape, .nothing)
  | escape, c :: rest =>
      if 0 < escape.2 ∨ c = 0x1b then scan (escapeAfter escape c) rest
      else if c = 255 then
        match rest with
        | [] => (escape, .command)
        | [cmd] => (escape, if takesOption cmd then .option else .nothing)
        | cmd :: option :: rest =>
            if takesOption cmd then scan escape rest else scan escape (option :: rest)
      else scan escape rest

/-- A command was executed, or a line recalled or completed. -/
def TelnetEvent.isOperation : TelnetEvent → Bool
  | .execute .. | .edit .. => true
  | .byte _ | .submit .. | .out _ | .testQuit | .remove => false

/-- The same session, in the same surroundings, after the same operations. -/
structure SameEffect (st st' : TelnetState) : Prop where
  sess : st.sess = st'.sess
  cli : st.cli = st'.cli
  operations : st.trace.filter TelnetEvent.isOperation =
    st'.trace.filter TelnetEvent.isOperation

/-- Neither the two pieces nor the whole close the session. -/
def StaysOpen (env : TelnetEnv) (st : TelnetState) (a b : List UInt8) : Prop :=
  (nvTelnetFeed env (nvTelnetFeed env st a) b).freed = false ∧
    (nvTelnetFeed env st (a ++ b)).freed = false

section Escape

variable {st : TelnetState}

theorem escape_unedited : Unedited TelnetState.escape where
  log _ _ := rfl
  shared _ _ := rfl
  edit _ _ _ _ _ _ _ := rfl

theorem escape_keptInput (env : TelnetEnv) (escBuf : CBuffer 8) :
    KeptInput env fun st => st.freed = true ∨ st.sess.escBuf = escBuf ∧ st.sess.escLen = 0 where
  log _ h := h
  terminate h := h
  atTab h := h
  complete _ _ h := h
  typed _ h := by
    simp only [TelnetState.upd, TelnetSess.typed]
    split_ifs <;> exact h
  backspace h := h
  clearLine h := h
  setUser _ h := h
  setState _ h := h
  clearHistory h := h
  leaveHistory h := h
  endEscape h := h.imp_right fun h => ⟨h.1, rfl⟩
  historyAdd _ h := by
    unfold nvTelnetHistoryAdd
    split_ifs <;> exact h
  execute _ _ h := h
  remove _ := Or.inl rfl

/-- A byte outside an escape sequence and a telnet command starts neither. -/
theorem escape_input (env : TelnetEnv) (c : UInt8) (hlen : st.sess.escLen = 0)
    (hopen : (nvTelnetInput env st c).freed = false) :
    (nvTelnetInput env st c).escape = st.escape := by
  have hkept := (escape_keptInput env st.sess.escBuf).input c (Or.inr ⟨rfl, hlen⟩)
  obtain ⟨hbuf, hend⟩ := hkept.resolve_left (by simp [hopen])
  exact Prod.ext hbuf (hend.trans hlen.symm)

/-- An escape sequence takes every byte that reaches it. -/
theorem tryEscape_taken (st : TelnetState) {c : UInt8} (h : 0 < st.sess.escLen ∨ c = 0x1b) :
    (tryEscape st c).2 = true ∧ (tryEscape st c).1.escape = escapeAfter st.escape c := by
  have hfirst : ¬(st.sess.escLen = 0 ∧ c ≠ 0x1b) := by
    rintro ⟨hlen, hc⟩
    exact h.elim (fun hpos => by omega) hc
  rw [tryEscape, if_pos h, nvTelnetEscapeFeed, if_neg hfirst]
  extract_lets st' seq
  have hst' : st'.escape = escapePut st.escape c := by
    by_cases hroom : st.sess.escLen < 7
    · rw [show escapePut st.escape c = _ from if_pos hroom]
      simp only [st', if_pos hroom]
      rfl
    · rw [show escapePut st.escape c = _ from if_neg hroom]
      simp only [st', if_neg hroom]
  have hafter : escapeAfter st.escape c =
      if contains seq (lit "[A") ∨ contains seq (lit "OA") then (st'.sess.escBuf, 0)
      else if contains seq (lit "[B") ∨ contains seq (lit "OB") then (st'.sess.escBuf, 0)
      else if 3 ≤ st'.sess.escLen ∨ 2 ≤ st'.sess.escLen ∧
          st'.sess.escBuf.toList.getD 1 0 ≠ 0x5b ∧ st'.sess.escBuf.toList.getD 1 0 ≠ 0x4f then
        (st'.sess.escBuf, 0)
      else st'.escape := by
    rw [escapeAfter, ← hst']
    rfl
  have hup : (nvTelnetHistoryUp st').sess.escBuf = st'.sess.escBuf :=
    congrArg Prod.fst (escape_unedited.historyUp st')
  have hdown : (nvTelnetHistoryDown st').sess.escBuf = st'.sess.escBuf :=
    congrArg Prod.fst (escape_unedited.historyDown st')
  rw [hafter]
  split_ifs
  · exact ⟨rfl, Prod.ext hup rfl⟩
  · exact ⟨rfl, Prod.ext hdown rfl⟩
  · exact ⟨rfl, rfl⟩
  · exact ⟨rfl, rfl⟩

theorem tryEscape_not_taken (st : TelnetState) {c : UInt8} (h : ¬(0 < st.sess.escLen ∨ c = 0x1b)) :
    tryEscape st c = (st, false) :=
  if_neg h

end Escape

section Freed

variable {env : TelnetEnv} {st : TelnetState}

theorem open_of_feed_open {bs : List UInt8} (h : (nvTelnetFeed env st bs).freed = false) :
    st.freed = false := by
  by_contra hfreed
  rw [Bool.not_eq_false] at hfreed
  have hend : (nvTelnetFeed env st bs).freed = true :=
    nvTelnetFeed_invariant (P := fun st => st.freed = true) (fun _ _ h => h)
      (fun st c h => (nvTelnetEscapeFeed_edits st c).freed.trans h)
      (fun _ c h => nvTelnetInput_freed env c h) hfreed bs
  rw [h] at hend
  exact Bool.false_ne_true hend

end Freed

section Cut

variable {env : TelnetEnv}

theorem feed_escape (env : TelnetEnv) (st : TelnetState) (c : UInt8)
    (h : 0 < st.escape.2 ∨ c = 0x1b) :
    ∃ st' : TelnetState, st'.escape = escapeAfter st.escape c ∧ st'.freed = st.freed ∧
      ∀ rest, nvTelnetFeed env st (c :: rest) = nvTelnetFeed env st' rest := by
  obtain ⟨htaken, hafter⟩ := tryEscape_taken (st.log (.byte c)) h
  refine ⟨(tryEscape (st.log (.byte c)) c).1, hafter, (tryEscape_edits st c).freed,
    fun rest => ?_⟩
  rw [nvTelnetFeed]
  simp only [htaken, if_true]

/-- A round of the loop outside an escape sequence. -/
theorem feed_plain {st : TelnetState} {c : UInt8} (h : ¬(0 < st.escape.2 ∨ c = 0x1b)) (hc : c ≠ 255)
    (rest : List UInt8) :
    nvTelnetFeed env st (c :: rest) =
      nvTelnetFeed env (nvTelnetInput env (st.log (.byte c)) c) rest := by
  rw [nvTelnetFeed, tryEscape_not_taken (st.log (.byte c)) h]
  simp [hc]

/-- What the loop would have done with `b`, had it not ended before. -/
def resume (env : TelnetEnv) : Pending → TelnetState → List UInt8 → TelnetState
  | .nothing, st, b => nvTelnetFeed env st b
  | .command, st, cmd :: option :: b =>
      if takesOption cmd then nvTelnetFeed env st b else nvTelnetFeed env st (option :: b)
  | .command, st, _ => st
  | .option, st, b => nvTelnetFeed env st b.tail

theorem feed_iac {st : TelnetState} (h : ¬(0 < st.escape.2 ∨ (255 : UInt8) = 0x1b))
    (rest : List UInt8) :
    nvTelnetFeed env st (255 :: rest) = resume env .command (st.log (.byte 255)) rest := by
  match rest with
  | [] => rw [nvTelnetFeed, tryEscape_not_taken (st.log (.byte 255)) h]; rfl
  | [_] => rw [nvTelnetFeed, tryEscape_not_taken (st.log (.byte 255)) h]; rfl
  | cmd :: option :: rest =>
      rw [nvTelnetFeed, tryEscape_not_taken (st.log (.byte 255)) h]
      simp [resume, takesOption]

/-- The cut loses what is pending in the loop, and nothing else. -/
theorem nvTelnetFeed_append (st : TelnetState) (a : List UInt8)
    (hopen : (nvTelnetFeed env st a).freed = false) :
    (nvTelnetFeed env st a).escape = (scan st.escape a).1 ∧
      ∀ b, nvTelnetFeed env st (a ++ b) =
        resume env (scan st.escape a).2 (nvTelnetFeed env st a) b := by
  generalize hescape : st.escape = escape
  fun_induction scan escape a generalizing st with
  | case1 escape => exact ⟨hescape, fun b => rfl⟩
  | case2 escape c rest h ih =>
      subst hescape
      obtain ⟨st', hst', -, hround⟩ := feed_escape env st c h
      simp only [List.cons_append, hround] at hopen ⊢
      exact ih st' hopen hst'
  | case3 escape h =>
      subst hescape
      simp only [List.cons_append, List.nil_append, feed_iac h]
      exact ⟨rfl, fun b => rfl⟩
  | case4 escape cmd h =>
      subst hescape
      simp only [List.cons_append, List.nil_append, feed_iac h]
      refine ⟨rfl, fun b => ?_⟩
      cases b with
      | nil => split <;> rfl
      | cons option b =>
          simp only [resume]
          split <;> rfl
  | case5 escape cmd option rest hcmd h ih =>
      subst hescape
      simp only [List.cons_append, feed_iac h, resume, hcmd, if_true] at hopen ⊢
      exact ih (st.log (.byte 255)) hopen rfl
  | case6 escape cmd option rest hcmd h ih =>
      subst hescape
      simp only [List.cons_append, feed_iac h, resume, if_neg hcmd] at hopen ⊢
      exact ih (st.log (.byte 255)) hopen rfl
  | case7 escape c rest h hc ih =>
      subst hescape
      simp only [List.cons_append, feed_plain h hc] at hopen ⊢
      have hlen : (st.log (.byte c)).sess.escLen = 0 :=
        Nat.eq_zero_of_not_pos fun hpos => h (Or.inl hpos)
      exact ih _ hopen (escape_input env c hlen (open_of_feed_open hopen))

/-- A telnet command starts outside an escape sequence. -/
theorem scan_pending (escape : CBuffer 8 × Nat) (a : List UInt8)
    (h : (scan escape a).2 ≠ .nothing) : (scan escape a).1.2 = 0 := by
  fun_induction scan escape a with
  | case1 escape => exact absurd rfl h
  | case2 escape c rest _ ih => exact ih h
  | case3 escape hescape => exact Nat.eq_zero_of_not_pos fun hpos => hescape (Or.inl hpos)
  | case4 escape cmd hescape => exact Nat.eq_zero_of_not_pos fun hpos => hescape (Or.inl hpos)
  | case5 escape cmd option rest _ _ ih => exact ih h
  | case6 escape cmd option rest _ _ ih => exact ih h
  | case7 escape c rest _ _ ih => exact ih h

/-- A byte that an escape sequence takes makes it longer or ends it. -/
theorem escapeAfter_ne {escape : CBuffer 8 × Nat} (h : 0 < escape.2) (c : UInt8) :
    (escapeAfter escape c).2 ≠ escape.2 := by
  have hput : (escapePut escape c).2 = escape.2 + 1 ∨ 3 ≤ (escapePut escape c).2 := by
    unfold escapePut
    split_ifs
    · exact Or.inl rfl
    · right
      omega
  unfold escapeAfter
  dsimp only
  split_ifs with hup hdown hend
  · exact Nat.ne_of_lt h
  · exact Nat.ne_of_lt h
  · exact Nat.ne_of_lt h
  · have hlt := (not_or.mp hend).1
    omega

theorem escapeAfter_esc (escape : CBuffer 8 × Nat) (h : escape.2 = 0) :
    (escapeAfter escape 0x1b).2 = 1 := by
  obtain ⟨buf, len⟩ := escape
  subst h
  have htext : ((buf.poke 0 0x1b).poke 1 0).text = lit "\x1b" := by
    have hlen : buf.toList.length = 8 := Vector.length_toList
    rw [CBuffer.text, CBuffer.poke_toList, CBuffer.poke_toList]
    cases hbuf : buf.toList with
    | nil => simp [hbuf] at hlen
    | cons first tail =>
        cases tail with
        | nil => simp [hbuf] at hlen
        | cons second rest => exact CString.ofBuffer_append_nul (lit "\x1b") rest
  have hup : ¬(contains (lit "\x1b") (lit "[A") = true ∨ contains (lit "\x1b") (lit "OA") = true) := by
    decide +kernel
  have hdown : ¬(contains (lit "\x1b") (lit "[B") = true ∨ contains (lit "\x1b") (lit "OB") = true) := by
    decide +kernel
  simp [escapeAfter, escapePut, htext, hup, hdown]

theorem escape_key_after_cut (st : TelnetState) (a : List UInt8)
    (hopen : (nvTelnetFeed env st a).freed = false) (hcut : (scan st.escape a).2 ≠ .nothing) :
    StaysOpen env st a [0x1b] ∧
      ¬SameEffect (nvTelnetFeed env (nvTelnetFeed env st a) [0x1b])
        (nvTelnetFeed env st (a ++ [0x1b])) := by
  obtain ⟨hescape, happend⟩ := nvTelnetFeed_append st a hopen
  have hzero : (nvTelnetFeed env st a).escape.2 = 0 := by
    rw [hescape]
    exact scan_pending st.escape a hcut
  have hwhole : nvTelnetFeed env st (a ++ [0x1b]) = nvTelnetFeed env st a := by
    rw [happend]
    cases hpending : (scan st.escape a).2 with
    | nothing => exact absurd hpending hcut
    | command => rfl
    | option => rfl
  obtain ⟨st', hst', hfreed, hround⟩ := feed_escape env (nvTelnetFeed env st a) 0x1b (Or.inr rfl)
  rw [StaysOpen, hwhole, hround]
  refine ⟨⟨hfreed.trans hopen, hopen⟩, fun hsame => ?_⟩
  have hone : st'.escape.2 = 1 := by
    rw [hst']
    exact escapeAfter_esc _ hzero
  have hsess : st'.escape = (nvTelnetFeed env st a).escape := by
    rw [TelnetState.escape, TelnetState.escape, ← hsame.sess]
    rfl
  rw [hsess, hzero] at hone
  exact absurd hone (by decide)

/--
The cut after `a` goes unnoticed, whatever follows, exactly when `a` does not
end inside a telnet command.
-/
theorem nvTelnetFeed_cut_unnoticed_iff
    (env : TelnetEnv)
    (st : TelnetState)
    (a : List UInt8)
    (hopen : (nvTelnetFeed env st a).freed = false) :
    (∀ b, StaysOpen env st a b →
      SameEffect (nvTelnetFeed env (nvTelnetFeed env st a) b) (nvTelnetFeed env st (a ++ b))) ↔
      (scan st.escape a).2 = .nothing := by
  constructor
  · intro hsame
    by_contra hcut
    obtain ⟨hstays, hdiffer⟩ := escape_key_after_cut st a hopen hcut
    exact hdiffer (hsame [0x1b] hstays)
  · intro hcut b _
    have happend := (nvTelnetFeed_append st a hopen).2 b
    rw [hcut] at happend
    rw [happend]
    exact ⟨rfl, rfl, rfl⟩

/-- A session of which the first bytes are still to come. -/
def freshSession : TelnetState :=
  nvTelnetSessStart plainEnv plainCli [] 1 5

/-- A cut in the user name `ad`, after a telnet command that is complete. -/
theorem cut_after_command_unnoticed :
    StaysOpen plainEnv freshSession [255, 253, 34, 97] [100] ∧
      SameEffect
        (nvTelnetFeed plainEnv (nvTelnetFeed plainEnv freshSession [255, 253, 34, 97]) [100])
        (nvTelnetFeed plainEnv freshSession [255, 253, 34, 97, 100]) := by
  have hstays : StaysOpen plainEnv freshSession [255, 253, 34, 97] [100] := by
    unfold StaysOpen
    decide +kernel
  have hcut := nvTelnetFeed_cut_unnoticed_iff plainEnv freshSession [255, 253, 34, 97]
    (by decide +kernel)
  exact ⟨hstays, hcut.mpr (by decide +kernel) [100] hstays⟩

/-- The option of a telnet command that arrives on its own is typed into the line. -/
theorem option_after_cut_typed :
    StaysOpen plainEnv freshSession [255, 253] [34] ∧
      (nvTelnetFeed plainEnv (nvTelnetFeed plainEnv freshSession [255, 253]) [34]).sess.lineLen = 1 ∧
      (nvTelnetFeed plainEnv freshSession [255, 253, 34]).sess.lineLen = 0 := by
  unfold StaysOpen
  decide +kernel

end Cut

end Libnv.Cli
