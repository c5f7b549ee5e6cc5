import Libnv.Lib.CFormat
import Libnv.Lib.CText
import Libnv.Log.Ring

/-!
# The text of a log record: `nv_log_emit`

A record is a header, the formatted message and a newline in a buffer of
`NV_LOG_MSG_MAX` bytes.  The message is cut to what fits behind the header, and
the newline is added only if there is still room for it.
-/

namespace Libnv.Log

/-- The broken-down time that the header prints, with `tv_usec / 1000`. -/
structure LogTime where
  tmYear : Int
  tmMon : Int
  tmMday : Int
  tmHour : Int
  tmMin : Int
  tmSec : Int
  msec : Int

/-- The arguments of `nv_log_emit`, and what it reads besides them. -/
structure EmitCall where
  level : Int
  module : Option CString
  file : CString
  line : Int
  /-- The bytes that the format produces, with a NUL among them or not. -/
  message : List UInt8
  /-- `g_log_level`. -/
  logLevel : Int
  /-- `g_log_module`. -/
  logModule : CBuffer 32
  /-- What `localtime_r` returns. -/
  now : Option LogTime
  pid : Int
  tid : Int
  /-- `line_buf` before it is written. -/
  lineBuf : CBuffer nvLogMsgMax

/-- A value of `nv_log_level_e` in its range. -/
def LogLevel.ofInt? : Int → Option LogLevel
  | 0 => some .debug
  | 1 => some .info
  | 2 => some .notice
  | 3 => some .warning
  | 4 => some .error
  | 5 => some .crit
  | 6 => some .fatal
  | _ => none

def logInfo : LogLevel → CString
  | .debug => CText.lit "DEBUG"
  | .info => CText.lit "INFO"
  | .notice => CText.lit "NOTICE"
  | .warning => CText.lit "WARNING"
  | .error => CText.lit "ERROR"
  | .crit => CText.lit "CRIT"
  | .fatal => CText.lit "FATAL"

def nvLogGetInfo (level : Int) : CString :=
  match LogLevel.ofInt? level with
  | some l => logInfo l
  | none => CText.lit "UNKNOWN"

/-- The macro `filename`: what stands behind the last `/`. -/
def filename (x : CString) : CString where
  bytes := x.bytes.rtakeWhile (· ≠ 47)
  nulFree := fun h => x.nulFree ((List.rtakeWhile_suffix _ _).subset h)

def nvLogCopyModule (logModule : CBuffer 32) : CBuffer 32 :=
  logModule.poke 31 0

/-- `(module && module[0]) ? module : module_fallback`. -/
def EmitCall.mod (c : EmitCall) : CString :=
  match c.module with
  | some m => if m.length = 0 then (nvLogCopyModule c.logModule).text else m
  | none => (nvLogCopyModule c.logModule).text

open CFormat in
/-- The header that the format string of `nv_log_format_header` spells. -/
def EmitCall.header (c : EmitCall) (t : LogTime) : CString :=
  CText.lit "[" ++ printInt 4 (t.tmYear + 1900) ++
    CText.lit "-" ++ printInt 2 (t.tmMon + 1) ++
    CText.lit "-" ++ printInt 2 t.tmMday ++
    CText.lit " " ++ printInt 2 t.tmHour ++
    CText.lit ":" ++ printInt 2 t.tmMin ++
    CText.lit ":" ++ printInt 2 t.tmSec ++
    CText.lit "." ++ printInt 3 t.msec ++
    CText.lit "] [" ++ nvLogGetInfo c.level ++
    CText.lit "] [PID:" ++ printInt 0 c.pid ++
    CText.lit " TID:" ++ printInt 0 c.tid ++
    CText.lit "] [" ++ c.mod ++
    CText.lit "] " ++ filename c.file ++
    CText.lit ":" ++ printInt 0 c.line ++ CText.lit " "

/-- The buffer and the returned length. -/
def nvLogFormatHeader (c : EmitCall) : CBuffer nvLogMsgMax × Int :=
  match c.now with
  | none => (c.lineBuf, -1)
  | some t => (c.lineBuf.snprintf (c.header t), CFormat.snprintfLength (c.header t))

/-- `nv_log_append_newline(buf, sizeof(buf))`. -/
def nvLogAppendNewline {n : Nat} (buf : CBuffer n) : CBuffer n :=
  let len := buf.text.length
  if len = 0 ∨ buf[len - 1]? ≠ some 10 then
    if len + 1 < n then (buf.poke len 10).poke (len + 1) 0 else buf
  else buf

/-- The line and the level that it hands to `nv_log_ring_push`, if it does. -/
def nvLogEmit (c : EmitCall) : Option (CString × LogLevel) :=
  match LogLevel.ofInt? c.level with
  | none => none
  | some level =>
      if c.level < c.logLevel then none
      else
        let (lineBuf, headerLen) := nvLogFormatHeader c
        if headerLen < 0 ∨ (nvLogMsgMax : Int) ≤ headerLen then none
        else
          let lineBuf := lineBuf.vsnprintf headerLen.toNat c.message
          some ((nvLogAppendNewline lineBuf).text, level)

section Newline

variable {n : Nat} {buf : CBuffer n}

theorem toList_of_text_lt (h : buf.text.length < n) :
    ∃ rest, buf.toList = buf.text.bytes ++ 0 :: rest := by
  have hsplit : buf.text.bytes ++ buf.toList.dropWhile (· ≠ 0) = buf.toList :=
    List.takeWhile_append_dropWhile
  cases hdrop : buf.toList.dropWhile (· ≠ 0) with
  | nil =>
      rw [hdrop, List.append_nil] at hsplit
      have hlen : buf.text.length = n := by
        rw [CString.length, hsplit, Vector.length_toList]
      omega
  | cons b rest =>
      have hb := List.head_dropWhile_not (· ≠ (0 : UInt8)) (l := buf.toList)
        (hdrop ▸ List.cons_ne_nil b rest)
      simp only [hdrop, List.head_cons, decide_eq_false_iff_not, not_not] at hb
      exact ⟨rest, by rw [← hsplit, hdrop, hb]⟩

theorem text_last (h : buf.text.length < n) (hpos : buf.text.length ≠ 0) :
    buf[buf.text.length - 1]? = buf.text.bytes.getLast? := by
  obtain ⟨rest, hrest⟩ := toList_of_text_lt h
  have hlt : buf.text.length - 1 < buf.text.bytes.length := by
    simp only [CString.length] at hpos ⊢
    omega
  rw [← Vector.getElem?_toList, hrest, List.getElem?_append_left hlt,
    List.getLast?_eq_getElem?]
  rfl

theorem text_appendNewline_of_room (hroom : buf.text.length + 1 < n)
    (hlast : buf.text.bytes.getLast? ≠ some 10) :
    (nvLogAppendNewline buf).text.bytes = buf.text.bytes ++ [10] := by
  obtain ⟨rest, hrest⟩ := toList_of_text_lt (by omega : buf.text.length < n)
  have hcond : buf.text.length = 0 ∨ buf[buf.text.length - 1]? ≠ some 10 := by
    by_cases hzero : buf.text.length = 0
    · exact Or.inl hzero
    · rw [text_last (by omega) hzero]
      exact Or.inr hlast
  obtain ⟨b, rest', rfl⟩ : ∃ b rest', rest = b :: rest' := by
    cases rest with
    | cons b rest' => exact ⟨b, rest', rfl⟩
    | nil =>
        have hlen := congrArg List.length hrest
        simp only [Vector.length_toList, List.length_append, List.length_cons, List.length_nil,
          CString.length] at hlen hroom
        omega
  have htext : ((buf.poke buf.text.length 10).poke (buf.text.length + 1) 0).toList =
      (buf.text.bytes ++ [10]) ++ 0 :: rest' := by
    have hlen : buf.text.length = buf.text.bytes.length := rfl
    simp only [CBuffer.poke, Vector.toList_setIfInBounds, hrest, hlen]
    rw [List.set_append_right _ _ (Nat.le_refl _), List.set_append_right _ _ (Nat.le_succ _)]
    simp
  have hfree : (0 : UInt8) ∉ buf.text.bytes ++ [10] := by
    rw [List.mem_append]
    rintro (h | h)
    · exact buf.text.nulFree h
    · exact absurd h (by decide)
  rw [nvLogAppendNewline, if_pos hcond, if_pos hroom, CBuffer.text, htext]
  exact congrArg CString.bytes (CString.ofBuffer_append_nul ⟨_, hfree⟩ rest')

theorem nvLogAppendNewline_of_full (hfull : n ≤ buf.text.length + 1) :
    nvLogAppendNewline buf = buf := by
  simp [nvLogAppendNewline, Nat.not_lt.mpr hfull]

theorem nvLogAppendNewline_of_newline
    (h : buf.text.length < n) (hlast : buf.text.bytes.getLast? = some 10) :
    nvLogAppendNewline buf = buf := by
  have hpos : buf.text.length ≠ 0 := by
    intro hzero
    rw [List.eq_nil_of_length_eq_zero hzero] at hlast
    cases hlast
  simp [nvLogAppendNewline, hpos, text_last h hpos, hlast]

end Newline

section Line

variable {c : EmitCall} {level : LogLevel}

/-- A complete line. -/
structure Complete (text : CString) : Prop where
  ne : text.bytes ≠ []
  length : text.length ≤ 4095
  newline : text.bytes.getLast? = some 10

/-- Header and message without a limit, if the time can be told. -/
def EmitCall.record (c : EmitCall) : Option CString :=
  c.now.map fun t => c.header t ++ CString.ofBuffer c.message

/-- The record leaves room for a newline, or has one at the last byte that is kept. -/
def EmitCall.Fits (c : EmitCall) : Prop :=
  match c.record with
  | none => True
  | some text => text.length ≤ 4094 ∨ text.bytes[4094]? = some 10

/-- What is pushed is the record cut to the buffer, with its newline. -/
theorem nvLogEmit_eq_some {line : CString} (h : nvLogEmit c = some (line, level)) :
    ∃ (record : CString) (buf : CBuffer nvLogMsgMax), c.record = some record ∧
      buf.text = record.take (nvLogMsgMax - 1) ∧ line = (nvLogAppendNewline buf).text := by
  unfold nvLogEmit at h
  cases hlevel : LogLevel.ofInt? c.level with
  | none =>
      rw [hlevel] at h
      cases h
  | some l =>
      rw [hlevel] at h
      dsimp only at h
      split at h
      · cases h
      · cases hnow : c.now with
        | none =>
            rw [nvLogFormatHeader, hnow] at h
            dsimp only at h
            rw [if_pos (Or.inl (by decide))] at h
            cases h
        | some t =>
            rw [nvLogFormatHeader, hnow] at h
            dsimp only at h
            split at h
            · cases h
            · rename_i hlen
              obtain ⟨hshort, hval⟩ : (c.header t).length < nvLogMsgMax ∧
                  (CFormat.snprintfLength (c.header t)).toNat = (c.header t).length := by
                unfold CFormat.snprintfLength at hlen ⊢
                split at hlen
                · rename_i hint
                  rw [if_pos hint]
                  omega
                · exact absurd (Or.inl (by decide)) hlen
              rw [hval] at h
              simp only [Option.some.injEq, Prod.mk.injEq] at h
              refine ⟨c.header t ++ CString.ofBuffer c.message, _, ?_, ?_, h.1.symm⟩
              · rw [EmitCall.record, hnow]
                rfl
              · exact CBuffer.text_vsnprintf c.lineBuf (c.header t) c.message hshort

theorem header_ne_nil (c : EmitCall) (t : LogTime) : (c.header t).bytes ≠ [] := by
  intro h
  simp only [EmitCall.header, CString.append_bytes, List.append_eq_nil_iff, and_assoc] at h
  exact absurd h.1 (by decide)

/-- A pushed line has 1 to 4095 bytes, and is complete exactly if the record fits. -/
theorem complete_nvLogEmit_iff {line : CString} (h : nvLogEmit c = some (line, level)) :
    line.bytes ≠ [] ∧ line.length ≤ 4095 ∧ (Complete line ↔ c.Fits) := by
  obtain ⟨record, buf, hrecord, hbuf, rfl⟩ := nvLogEmit_eq_some h
  have hne : record.bytes ≠ [] := by
    obtain ⟨t, -, rfl⟩ := Option.map_eq_some_iff.mp hrecord
    simp [header_ne_nil c t]
  have hkept : buf.text.length ≤ 4095 := hbuf ▸ record.length_take_le 4095
  have hterm : buf.text.length < nvLogMsgMax := Nat.lt_succ_of_le hkept
  have hfits : c.Fits ↔ (record.length ≤ 4094 ∨ record.bytes[4094]? = some 10) := by
    rw [EmitCall.Fits, hrecord]
  rw [hfits]
  by_cases hshort : record.length ≤ 4094
  · -- nothing was cut and a newline has room
    have hself : buf.text = record := hbuf.trans (CString.take_eq_self (Nat.le_succ_of_le hshort))
    by_cases hlast : record.bytes.getLast? = some 10
    · rw [nvLogAppendNewline_of_newline hterm (hself ▸ hlast), hself]
      have hle : record.length ≤ 4095 := by omega
      exact ⟨hne, hle, fun _ => Or.inl hshort, fun _ => ⟨hne, hle, hlast⟩⟩
    · have hroom : buf.text.length + 1 < nvLogMsgMax := by
        rw [hself, nvLogMsgMax]
        omega
      have hbytes := text_appendNewline_of_room hroom (hself ▸ hlast)
      rw [hself] at hbytes
      have hne' : (nvLogAppendNewline buf).text.bytes ≠ [] := by simp [hbytes]
      have hle : (nvLogAppendNewline buf).text.length ≤ 4095 := by
        rw [CString.length, hbytes, List.length_append]
        exact Nat.succ_le_succ hshort
      exact ⟨hne', hle, fun _ => Or.inl hshort, fun _ => ⟨hne', hle, by simp [hbytes]⟩⟩
  · -- the buffer is full and stays as it is
    have hlen : buf.text.length = 4095 := by
      rw [hbuf, CString.length, CString.take_bytes, List.length_take]
      simp only [CString.length, nvLogMsgMax] at hshort ⊢
      omega
    have hne' : buf.text.bytes ≠ [] := by
      intro hnil
      rw [CString.length, hnil] at hlen
      cases hlen
    have hlast : buf.text.bytes.getLast? = record.bytes[4094]? := by
      rw [List.getLast?_eq_getElem?, show buf.text.bytes.length = 4095 from hlen, hbuf]
      exact List.getElem?_take_of_lt (by decide)
    rw [nvLogAppendNewline_of_full (by rw [hlen]; decide)]
    refine ⟨hne', hlen.le, fun hc => Or.inr (hlast ▸ hc.newline), fun hc => ?_⟩
    exact ⟨hne', hlen.le, hlast.trans (hc.resolve_left hshort)⟩

/-- A level at or above the threshold and a header that is shorter than the buffer are pushed. -/
theorem nvLogEmit_isSome {t : LogTime}
    (hlevel : LogLevel.ofInt? c.level = some level) (hthreshold : c.logLevel ≤ c.level)
    (hnow : c.now = some t) (hheader : (c.header t).length < nvLogMsgMax) :
    ∃ line, nvLogEmit c = some (line, level) := by
  have hint : (c.header t).length < 2 ^ 31 := Nat.lt_trans hheader (by decide)
  have hlen : CFormat.snprintfLength (c.header t) = (c.header t).length := if_pos hint
  have hpushed : ¬ (CFormat.snprintfLength (c.header t) < 0 ∨
      (nvLogMsgMax : Int) ≤ CFormat.snprintfLength (c.header t)) := by
    rw [hlen]
    omega
  rw [nvLogEmit, hlevel]
  dsimp only
  rw [if_neg (Int.not_lt.mpr hthreshold), nvLogFormatHeader, hnow]
  dsimp only
  rw [if_neg hpushed]
  exact ⟨_, rfl⟩

end Line

end Libnv.Log
