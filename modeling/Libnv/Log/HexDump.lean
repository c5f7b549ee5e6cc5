import Libnv.Lib.CFormat
import Libnv.Lib.CText
import Libnv.Log.Ring

/-!
# Hex dumps

`nv_log_hex_dump` prints a row of sixteen bytes into `line`, appends it to `chunk`
and pushes the chunk when less than 128 bytes of it are left.  Both arrays are on
the stack and are not initialised; what they hold on entry is a parameter.

The index is a natural: `i` stays below the length of the data plus sixteen, which
cannot wrap a `size_t`, since the data and the chunk are objects of one address
space.  For the same reason the two `int` counters are naturals, as they stay below
the sizes of the arrays.
-/

namespace Libnv.Log

open CText CFormat

/-- The output of `snprintf(.., "%02X ", b)`. -/
def hexCell (b : UInt8) : CString :=
  printHexByte b ++ lit " "

/-- The loop over `j`, for the bytes that it reads; `lp` is the length of the row so far. -/
def printCells (bytes : List UInt8) (line : CBuffer 128) (lp : Nat) : CBuffer 128 × Nat :=
  bytes.foldl
    (fun (line, lp) b => (line.vsnprintf lp (hexCell b).bytes, lp + (hexCell b).length))
    (line, lp)

/-- One row: the two blanks, the bytes `data[i]` to `data[i + 15]` and the newline. -/
def printRow (data : List UInt8) (i : Nat) (line : CBuffer 128) : CBuffer 128 :=
  let line := line.vsnprintf 0 (lit "  ").bytes
  let (line, lp) := printCells ((data.drop i).take 16) line (lit "  ").length
  line.vsnprintf lp (lit "\n").bytes

/-- The variables of `nv_log_hex_dump`. -/
structure HexDump where
  chunk : CBuffer nvLogMsgMax
  line : CBuffer 128
  i : Nat
  pos : Nat

/-- The loop that fills a chunk; every round advances `i`. -/
def rowLoop (data : List UInt8) : Nat → HexDump → HexDump
  | 0, st => st
  | fuel + 1, st =>
      if st.i < data.length ∧ st.pos < nvLogMsgMax - 128 then
        let line := printRow data st.i st.line
        rowLoop data fuel
          { chunk := st.chunk.vsnprintf st.pos line.text.bytes
            line := line
            i := st.i + 16
            pos := st.pos + line.text.length }
      else st

/-- The outer loop, with the messages that it pushes. -/
def chunkLoop (data : List UInt8) : Nat → HexDump → List LogMsg
  | 0, _ => []
  | fuel + 1, st =>
      if st.i < data.length then
        let st := rowLoop data data.length { st with pos := 0, chunk := st.chunk.poke 0 0 }
        let pushed := if st.chunk.peek 0 ≠ 0 then [⟨st.chunk.text, .debug⟩] else []
        pushed ++ chunkLoop data fuel st
      else []

/-- The calls of `nv_log_ring_push`, in their order. -/
def nvLogHexDump (data : List UInt8) (chunk : CBuffer nvLogMsgMax) (line : CBuffer 128) :
    List LogMsg :=
  if data.length = 0 then [] else chunkLoop data data.length ⟨chunk, line, 0, 0⟩

/-- The bytes in hexadecimal, each with a blank behind it. -/
def hexCells (bytes : List UInt8) : List UInt8 :=
  bytes.flatMap fun b => (printHexByte b).bytes ++ [32]

/-- A row of the dump: `  XX XX .. XX ` and a newline. -/
def hexRow (bytes : List UInt8) : List UInt8 :=
  (lit "  ").bytes ++ hexCells bytes ++ [10]

/-- The data, sixteen bytes at a time and fewer at the end. -/
def byteRows (data : List UInt8) : List (List UInt8) :=
  (List.range ((data.length + 15) / 16)).map fun k => (data.drop (16 * k)).take 16

def hexRows (data : List UInt8) : List (List UInt8) :=
  (byteRows data).map hexRow

/-- The messages are the dump of the data, cut at ends of lines, and none is too long. -/
structure DumpedIn (data : List UInt8) (pushed : List LogMsg) : Prop where
  once : (byteRows data).flatten = data
  complete : pushed.flatMap (·.line.bytes) = (hexRows data).flatten
  short : ∀ m ∈ pushed, m.line.length < nvLogMsgMax
  lineEnd : ∀ m ∈ pushed, m.line.bytes.getLast? = some 10
  uncut : ∀ m ∈ pushed, m.text = m.line

theorem byteRows_of_ne_nil {data : List UInt8} (h : data ≠ []) :
    byteRows data = data.take 16 :: byteRows (data.drop 16) := by
  have hpos := List.length_pos_of_ne_nil h
  have hcount : (data.length + 15) / 16 = ((data.drop 16).length + 15) / 16 + 1 := by
    rw [List.length_drop]
    omega
  rw [byteRows, hcount, List.range_succ_eq_map, List.map_cons, List.map_map, Nat.mul_zero,
    List.drop_zero, byteRows]
  refine congrArg (_ :: ·) (List.map_congr_left fun k _ => ?_)
  rw [Function.comp_apply, List.drop_drop, Nat.mul_succ, Nat.add_comm]

theorem hexRows_of_ne_nil {data : List UInt8} (h : data ≠ []) :
    hexRows data = hexRow (data.take 16) :: hexRows (data.drop 16) := by
  rw [hexRows, byteRows_of_ne_nil h, List.map_cons, hexRows]

theorem flatten_byteRows (data : List UInt8) : (byteRows data).flatten = data := by
  induction hn : data.length using Nat.strong_induction_on generalizing data with
  | _ n ih =>
      subst hn
      by_cases hnil : data = []
      · subst hnil
        rfl
      · have hpos := List.length_pos_of_ne_nil hnil
        have hshort : (data.drop 16).length < data.length := by
          rw [List.length_drop]
          omega
        rw [byteRows_of_ne_nil hnil, List.flatten_cons, ih _ hshort _ rfl, List.take_append_drop]

theorem hexCells_cons (b : UInt8) (bytes : List UInt8) :
    hexCells (b :: bytes) = (hexCell b).bytes ++ hexCells bytes :=
  List.flatMap_cons

theorem length_hexCells (bytes : List UInt8) : (hexCells bytes).length = 3 * bytes.length := by
  induction bytes with
  | nil => rfl
  | cons b bytes ih =>
      have hlen : (hexCell b).bytes.length = 3 := rfl
      rw [hexCells_cons, List.length_append, ih, hlen, List.length_cons]
      omega

theorem length_hexRow (bytes : List UInt8) : (hexRow bytes).length = 3 * bytes.length + 3 := by
  rw [hexRow, List.length_append, List.length_append, length_hexCells, List.length_singleton]
  have hblanks : (lit "  ").bytes.length = 2 := by decide
  omega

theorem nul_not_mem_hexRow (bytes : List UInt8) : 0 ∉ hexRow bytes := by
  have hcells : 0 ∉ hexCells bytes := by
    intro hmem
    obtain ⟨b, -, hb⟩ := List.mem_flatMap.mp hmem
    exact (hexCell b).nulFree hb
  intro hmem
  obtain hmem | hmem := List.mem_append.mp hmem
  · obtain hmem | hmem := List.mem_append.mp hmem
    · exact (lit "  ").nulFree hmem
    · exact hcells hmem
  · exact absurd (List.mem_singleton.mp hmem) (by decide)

theorem starts_vsnprintf {n : Nat} {buf : CBuffer n} {left : List UInt8}
    (hleft : left <+: buf.toList) (out : List UInt8) (hfits : left.length + out.length < n) :
    ∃ rest, (buf.vsnprintf left.length out).toList = left ++ out ++ 0 :: rest := by
  obtain ⟨rest, hrest⟩ := CBuffer.vsnprintf_toList hleft (by omega) out
  rw [List.take_of_length_le (by omega), ← List.append_assoc] at hrest
  exact ⟨rest, hrest⟩

theorem printCells_spec {line : CBuffer 128} {left : List UInt8} (hleft : left <+: line.toList)
    (bytes : List UInt8) (hfits : left.length + 3 * bytes.length < 128) :
    left ++ hexCells bytes <+: (printCells bytes line left.length).1.toList ∧
      (printCells bytes line left.length).2 = (left ++ hexCells bytes).length := by
  induction bytes generalizing line left with
  | nil =>
      rw [show hexCells [] = [] from rfl, List.append_nil]
      exact ⟨hleft, rfl⟩
  | cons b bytes ih =>
      have hlen : (hexCell b).bytes.length = 3 := rfl
      rw [List.length_cons] at hfits
      obtain ⟨rest, hrest⟩ := starts_vsnprintf hleft (hexCell b).bytes (by omega)
      have hcells := ih ⟨_, hrest.symm⟩ (by rw [List.length_append]; omega)
      have hsum : (left ++ (hexCell b).bytes).length = left.length + (hexCell b).length :=
        List.length_append
      rw [hsum] at hcells
      rw [hexCells_cons, ← List.append_assoc]
      exact hcells

theorem printRow_text (data : List UInt8) (i : Nat) (line : CBuffer 128) :
    (printRow data i line).text.bytes = hexRow ((data.drop i).take 16) := by
  have hcount : ((data.drop i).take 16).length ≤ 16 := List.length_take_le _ _
  have hblanks : (lit "  ").bytes.length = 2 := by decide
  obtain ⟨rest, hrest⟩ := starts_vsnprintf (List.nil_prefix : [] <+: line.toList)
    (lit "  ").bytes (by rw [hblanks, List.length_nil]; omega)
  obtain ⟨hstart, hlp⟩ := printCells_spec ⟨_, hrest.symm⟩ ((data.drop i).take 16)
    (by rw [List.nil_append, hblanks]; omega)
  have hlen := length_hexCells ((data.drop i).take 16)
  obtain ⟨rest', hrest'⟩ := starts_vsnprintf hstart (lit "\n").bytes (by
    rw [List.length_append, List.nil_append, hblanks, hlen, show (lit "\n").bytes.length = 1 from rfl]
    omega)
  rw [← hlp] at hrest'
  have hrow : (printRow data i line).toList = hexRow ((data.drop i).take 16) ++ 0 :: rest' := hrest'
  rw [CBuffer.text, hrow]
  exact takeWhile_ne_append_cons (nul_not_mem_hexRow _) rest'

section Loops

variable {data : List UInt8} {left : List UInt8} {rows : List (List UInt8)} {st : HexDump}

theorem exists_of_mem_hexRows {row : List UInt8} (h : row ∈ hexRows data) :
    ∃ bytes, row = hexRow bytes := by
  obtain ⟨bytes, -, rfl⟩ := List.mem_map.mp h
  exact ⟨bytes, rfl⟩

/-- The chunk holds `left`, and `pos` is its length. -/
structure HexDump.Holds (st : HexDump) (left : List UInt8) : Prop where
  chunk : ∃ rest, st.chunk.toList = left ++ 0 :: rest
  pos : st.pos = left.length
  fits : left.length < nvLogMsgMax

/-- A chunk that is started anew. -/
theorem HexDump.holds_nil (st : HexDump) :
    HexDump.Holds { st with pos := 0, chunk := st.chunk.poke 0 0 } [] := by
  have hpos : 0 < st.chunk.toList.length := by
    rw [Vector.length_toList]
    decide
  obtain ⟨old, rest, hchunk⟩ := List.exists_cons_of_length_pos hpos
  have hpoke : (st.chunk.poke 0 0).toList = [] ++ 0 :: rest :=
    @CBuffer.poke_append _ _ [] _ _ hchunk 0
  exact ⟨⟨rest, hpoke⟩, rfl, by decide⟩

theorem HexDump.Holds.text (h : st.Holds left) (hnul : 0 ∉ left) : st.chunk.text.bytes = left := by
  obtain ⟨rest, hchunk⟩ := h.chunk
  rw [CBuffer.text, hchunk]
  exact takeWhile_ne_append_cons hnul rest

theorem HexDump.Holds.length_lt (h : st.Holds left)
    (hnul : 0 ∉ left) : st.chunk.text.length < nvLogMsgMax := by
  rw [CString.length, h.text hnul]
  exact h.fits

theorem HexDump.Holds.peek_ne (h : st.Holds left)
    (hnul : 0 ∉ left) (hne : left ≠ []) : st.chunk.peek 0 ≠ 0 := by
  obtain ⟨rest, hchunk⟩ := h.chunk
  obtain ⟨b, left, rfl⟩ := List.exists_cons_of_ne_nil hne
  have hfirst : st.chunk.peek 0 = b := @CBuffer.peek_append _ _ [] _ _ hchunk
  rw [hfirst]
  exact fun hb => hnul (hb ▸ List.mem_cons_self)

/-- The variables after one round of `rowLoop`. -/
def HexDump.afterRow (data : List UInt8) (st : HexDump) : HexDump where
  chunk := st.chunk.vsnprintf st.pos (printRow data st.i st.line).text.bytes
  line := printRow data st.i st.line
  i := st.i + 16
  pos := st.pos + (printRow data st.i st.line).text.length

theorem HexDump.Holds.afterRow (h : st.Holds left) (hpos : st.pos < nvLogMsgMax - 128) :
    (st.afterRow data).Holds (left ++ hexRow ((data.drop st.i).take 16)) := by
  obtain ⟨rest, hchunk⟩ := h.chunk
  have hlen : (hexRow ((data.drop st.i).take 16)).length ≤ 51 := by
    have hcount : ((data.drop st.i).take 16).length ≤ 16 := List.length_take_le _ _
    rw [length_hexRow]
    omega
  have hroom : left.length + (hexRow ((data.drop st.i).take 16)).length < nvLogMsgMax := by
    have hleft := h.pos
    omega
  refine ⟨?_, ?_, ?_⟩
  · rw [HexDump.afterRow, h.pos, printRow_text]
    exact starts_vsnprintf ⟨_, hchunk.symm⟩ _ hroom
  · rw [HexDump.afterRow, h.pos, CString.length, printRow_text, List.length_append]
  · rwa [List.length_append]

/-- From `st` to `st'` the next rows of the data were appended to the chunk. -/
structure Appends (data : List UInt8) (st st' : HexDump) (left : List UInt8)
    (rows : List (List UInt8)) : Prop where
  split : hexRows (data.drop st.i) = rows ++ hexRows (data.drop st'.i)
  holds : st'.Holds (left ++ rows.flatten)
  i : st'.i = st.i + 16 * rows.length

theorem Appends.nil (h : st.Holds left) : Appends data st st left [] where
  split := rfl
  holds := by rwa [List.flatten_nil, List.append_nil]
  i := rfl

theorem Appends.cons {st' : HexDump} (hi : st.i < data.length)
    (h : Appends data (st.afterRow data) st' (left ++ hexRow ((data.drop st.i).take 16)) rows) :
    Appends data st st' left (hexRow ((data.drop st.i).take 16) :: rows) where
  split := by
    have hne : data.drop st.i ≠ [] := fun hnil =>
      Nat.not_le.mpr hi (List.drop_eq_nil_iff.mp hnil)
    have hrest := h.split
    rw [HexDump.afterRow, ← List.drop_drop] at hrest
    rw [hexRows_of_ne_nil hne, hrest, List.cons_append]
  holds := by
    rw [List.flatten_cons, ← List.append_assoc]
    exact h.holds
  i := by
    have hi' : (st.afterRow data).i = st.i + 16 := rfl
    rw [h.i, hi', List.length_cons]
    omega

/-- A chunk is filled with whole rows, and with one at least if there is room. -/
theorem rowLoop_appends {fuel : Nat} (h : st.Holds left) :
    ∃ rows, Appends data st (rowLoop data fuel st) left rows ∧
      (fuel ≠ 0 → st.i < data.length → st.pos < nvLogMsgMax - 128 → rows ≠ []) := by
  induction fuel generalizing st left with
  | zero => exact ⟨[], Appends.nil h, fun hfuel => absurd rfl hfuel⟩
  | succ fuel ih =>
      rw [rowLoop]
      by_cases hround : st.i < data.length ∧ st.pos < nvLogMsgMax - 128
      · rw [if_pos hround]
        obtain ⟨rows, hrows, -⟩ := ih (h.afterRow hround.2)
        exact ⟨_, Appends.cons hround.1 hrows, fun _ _ _ => List.cons_ne_nil _ _⟩
      · rw [if_neg hround]
        exact ⟨[], Appends.nil h, fun _ hi hpos => absurd ⟨hi, hpos⟩ hround⟩

theorem flatten_of_hexRows (h : ∀ row ∈ rows, ∃ bytes, row = hexRow bytes) (hne : rows ≠ []) :
    0 ∉ rows.flatten ∧ rows.flatten.getLast? = some 10 := by
  constructor
  · intro hmem
    obtain ⟨row, hrow, hzero⟩ := List.mem_flatten.mp hmem
    obtain ⟨bytes, rfl⟩ := h row hrow
    exact nul_not_mem_hexRow bytes hzero
  · obtain ⟨init, last, rfl⟩ := (List.eq_nil_or_concat' rows).resolve_left hne
    obtain ⟨bytes, rfl⟩ := h last (by simp)
    rw [List.flatten_append, List.flatten_singleton, hexRow, ← List.append_assoc,
      List.getLast?_concat]

theorem DumpedIn.nil (h : data = []) : DumpedIn data [] := by
  subst h
  exact ⟨rfl, rfl, by simp, by simp, by simp⟩

/-- One message and those that follow it. -/
theorem DumpedIn.cons {rest : List UInt8} {pushed : List LogMsg} {text : CString}
    (h : DumpedIn rest pushed) (hsplit : hexRows data = rows ++ hexRows rest)
    (htext : text.bytes = rows.flatten) (hlast : rows.flatten.getLast? = some 10)
    (hshort : text.length < nvLogMsgMax) : DumpedIn data (⟨text, .debug⟩ :: pushed) where
  once := flatten_byteRows data
  complete := by
    rw [List.flatMap_cons, h.complete, hsplit, List.flatten_append, htext]
  short := List.forall_mem_cons.mpr ⟨hshort, h.short⟩
  lineEnd := List.forall_mem_cons.mpr ⟨htext ▸ hlast, h.lineEnd⟩
  uncut := List.forall_mem_cons.mpr ⟨CString.take_eq_self (Nat.le_pred_of_lt hshort), h.uncut⟩

theorem chunkLoop_dumpedIn {fuel : Nat} (hfuel : data.length ≤ st.i + fuel) :
    DumpedIn (data.drop st.i) (chunkLoop data fuel st) := by
  induction fuel generalizing st with
  | zero => exact DumpedIn.nil (List.drop_eq_nil_of_le hfuel)
  | succ fuel ih =>
      rw [chunkLoop]
      by_cases hi : st.i < data.length
      · rw [if_pos hi]
        obtain ⟨rows, hrows, hsome⟩ := @rowLoop_appends data _ _ data.length st.holds_nil
        have hne : rows ≠ [] := hsome (Nat.ne_zero_of_lt hi) hi (Nat.sub_pos_of_lt (by decide))
        dsimp only
        generalize rowLoop data data.length _ = st' at hrows ⊢
        obtain ⟨hnul, hlast⟩ := flatten_of_hexRows
          (fun row hrow => exists_of_mem_hexRows (hrows.split ▸ List.mem_append_left _ hrow)) hne
        have hholds := hrows.holds
        rw [List.nil_append] at hholds
        have hfull : st'.chunk.peek 0 ≠ 0 :=
          hholds.peek_ne hnul fun hnil => by rw [hnil] at hlast; cases hlast
        have hi' : st'.i = st.i + 16 * rows.length := hrows.i
        have hlen := List.length_pos_of_ne_nil hne
        rw [if_pos hfull, List.singleton_append]
        exact DumpedIn.cons (ih (by omega)) hrows.split (hholds.text hnul) hlast
          (hholds.length_lt hnul)
      · rw [if_neg hi]
        exact DumpedIn.nil (List.drop_eq_nil_of_le (Nat.not_lt.mp hi))

/-- The messages that `nv_log_hex_dump` pushes are the dump of the data. -/
theorem nvLogHexDump_dumpedIn
    (data : List UInt8)
    (chunk : CBuffer nvLogMsgMax)
    (line : CBuffer 128) : DumpedIn data (nvLogHexDump data chunk line) := by
  rw [nvLogHexDump]
  split
  next hnil => exact DumpedIn.nil (List.length_eq_zero_iff.mp hnil)
  next =>
    have hdump := @chunkLoop_dumpedIn data ⟨chunk, line, 0, 0⟩ data.length (by simp)
    rwa [List.drop_zero] at hdump

end Loops

end Libnv.Log
