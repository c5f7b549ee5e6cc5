import Libnv.Lib.Block
import Libnv.Lib.CText
import Libnv.Lib.Transition

/-!
# Stream buffers

`nv_tcp_buffer_*` of `src/event/nv_tcp.c` and `nv_udp_buffer_*` of
`src/event/nv_udp.c`.  The two files have a copy of the code each; both copies are
translated, since it is their agreement that is shown.  `size_t` has 64 bits.  The
pool of a buffer is not used by the functions.

A buffer stands for a queue of bytes with a capacity, which is all that its functions
depend on.
-/

namespace Libnv.Stream

open Block CText Transition

/-- The bytes of memory that nothing has written yet. -/
abbrev Fresh := Nat → UInt8

/-- A sum or product of type `size_t`. -/
def sizeT (n : Nat) : Nat :=
  n % 2 ^ 64

/-- `nv_tcp_buffer_t`. -/
structure TcpBuffer where
  data : List UInt8
  size : Nat
  capacity : Nat

/-- Without memory there is no buffer. -/
def nvTcpBufferCreate (initialSize : Nat) (alloc : Option Fresh) : Option TcpBuffer :=
  alloc.map fun fresh => { data := malloc fresh initialSize, size := 0, capacity := initialSize }

/-- `alloc` is what `realloc` does if it is called. -/
def nvTcpBufferWrite (buf : TcpBuffer) (data : List UInt8) (alloc : Option Fresh) :
    TcpBuffer × Int :=
  let len := data.length
  let append (buf : TcpBuffer) : TcpBuffer :=
    { buf with data := memcpy buf.data buf.size data, size := sizeT (buf.size + len) }
  if sizeT (buf.size + len) > buf.capacity then
    let newCapacity := sizeT (buf.capacity * 2)
    let newCapacity :=
      if newCapacity < sizeT (buf.size + len) then sizeT (buf.size + len) else newCapacity
    match alloc with
    | none => (buf, -1)
    | some fresh =>
        (append { buf with data := realloc fresh buf.data newCapacity, capacity := newCapacity }, 0)
  else (append buf, 0)

/-- The buffer, what is stored in `data`, and the return value. -/
def nvTcpBufferRead (buf : TcpBuffer) (len : Nat) : TcpBuffer × List UInt8 × Int :=
  let len := if len > buf.size then buf.size else len
  if len > 0 then
    let out := buf.data.take len
    let data := if len < buf.size then memmove buf.data len (buf.size - len) else buf.data
    ({ buf with data := data, size := buf.size - len }, out, toInt len)
  else (buf, [], toInt len)

/-- `nv_udp_buffer_t`. -/
structure UdpBuffer where
  data : List UInt8
  size : Nat
  capacity : Nat

def nvUdpBufferCreate (initialSize : Nat) (alloc : Option Fresh) : Option UdpBuffer :=
  alloc.map fun fresh => { data := malloc fresh initialSize, size := 0, capacity := initialSize }

def nvUdpBufferWrite (buf : UdpBuffer) (data : List UInt8) (alloc : Option Fresh) :
    UdpBuffer × Int :=
  let len := data.length
  let append (buf : UdpBuffer) : UdpBuffer :=
    { buf with data := memcpy buf.data buf.size data, size := sizeT (buf.size + len) }
  if sizeT (buf.size + len) > buf.capacity then
    let newCapacity := sizeT (buf.capacity * 2)
    let newCapacity :=
      if newCapacity < sizeT (buf.size + len) then sizeT (buf.size + len) else newCapacity
    match alloc with
    | none => (buf, -1)
    | some fresh =>
        (append { buf with data := realloc fresh buf.data newCapacity, capacity := newCapacity }, 0)
  else (append buf, 0)

def nvUdpBufferRead (buf : UdpBuffer) (len : Nat) : UdpBuffer × List UInt8 × Int :=
  let len := if len > buf.size then buf.size else len
  if len > 0 then
    let out := buf.data.take len
    let data := if len < buf.size then memmove buf.data len (buf.size - len) else buf.data
    ({ buf with data := data, size := buf.size - len }, out, toInt len)
  else (buf, [], toInt len)

/-- The same fields. -/
def UdpBuffer.asTcp (buf : UdpBuffer) : TcpBuffer where
  data := buf.data
  size := buf.size
  capacity := buf.capacity

theorem asTcp_write (buf : UdpBuffer) (data : List UInt8) (alloc : Option Fresh) :
    ((nvUdpBufferWrite buf data alloc).1.asTcp, (nvUdpBufferWrite buf data alloc).2) =
      nvTcpBufferWrite buf.asTcp data alloc := by
  unfold nvUdpBufferWrite nvTcpBufferWrite
  by_cases hgrow : sizeT (buf.size + data.length) > buf.capacity
  · have hgrow' : sizeT (buf.asTcp.size + data.length) > buf.asTcp.capacity := hgrow
    dsimp only
    rw [if_pos hgrow, if_pos hgrow']
    cases alloc <;> rfl
  · have hgrow' : ¬ sizeT (buf.asTcp.size + data.length) > buf.asTcp.capacity := hgrow
    dsimp only
    rw [if_neg hgrow, if_neg hgrow']
    rfl

theorem asTcp_read (buf : UdpBuffer) (len : Nat) :
    ((nvUdpBufferRead buf len).1.asTcp, (nvUdpBufferRead buf len).2) =
      nvTcpBufferRead buf.asTcp len := by
  unfold nvUdpBufferRead nvTcpBufferRead
  have hlen : (if len > buf.asTcp.size then buf.asTcp.size else len) =
      if len > buf.size then buf.size else len := rfl
  rw [hlen]
  by_cases hpos : (if len > buf.size then buf.size else len) > 0
  · dsimp only
    rw [if_pos hpos, if_pos hpos]
    rfl
  · dsimp only
    rw [if_neg hpos, if_neg hpos]

section Queue

variable {data : List UInt8}

/-- A queue of bytes, with room for `capacity` of them before it has to grow. -/
structure Queue where
  content : List UInt8
  capacity : Nat

/-- Bytes are appended, unless the queue has to grow and there is no memory. -/
def Queue.write (q : Queue) (data : List UInt8) (memory : Bool) : Queue × Int :=
  let size := q.content.length + data.length
  if size ≤ q.capacity then ({ q with content := q.content ++ data }, 0)
  else if memory then
    ({ content := q.content ++ data, capacity := max (q.capacity * 2) size }, 0)
  else (q, -1)

/-- At most `len` bytes leave the queue. -/
def Queue.read (q : Queue) (len : Nat) : Queue × List UInt8 × Int :=
  ({ q with content := q.content.drop len }, q.content.take len, Int.ofNat (min len q.content.length))

def TcpBuffer.queue (buf : TcpBuffer) : Queue where
  content := buf.data.take buf.size
  capacity := buf.capacity

structure TcpBuffer.Valid (buf : TcpBuffer) : Prop where
  length : buf.data.length = buf.capacity
  size : buf.size ≤ buf.capacity

variable {buf : TcpBuffer}

theorem TcpBuffer.Valid.length_content (h : buf.Valid) : buf.queue.content.length = buf.size := by
  apply List.length_take_of_le
  rw [h.length]
  exact h.size

theorem sizeT_of_lt {n : Nat} (h : n < 2 ^ 32) : sizeT n = n :=
  Nat.mod_eq_of_lt (Nat.lt_trans h (by decide))

/-- The bytes are written behind the others, where there is room for them. -/
theorem TcpBuffer.Valid.append (h : buf.Valid) (hroom : buf.size + data.length ≤ buf.capacity) :
    let buf' : TcpBuffer :=
      { buf with data := memcpy buf.data buf.size data, size := buf.size + data.length }
    buf'.Valid ∧ buf'.queue = { content := buf.queue.content ++ data, capacity := buf.capacity } := by
  have hfits : buf.size + data.length ≤ buf.data.length := by rwa [h.length]
  refine ⟨⟨?_, hroom⟩, ?_⟩
  · rw [length_memcpy hfits]
    exact h.length
  · exact congrArg (fun content => Queue.mk content buf.capacity) (take_memcpy hfits)

/-- The block grows, and the bytes in it are kept. -/
theorem TcpBuffer.Valid.realloc (h : buf.Valid) (fresh : Fresh) {newCapacity : Nat}
    (hsize : buf.size ≤ newCapacity) : let buf' : TcpBuffer :=
      { buf with data := realloc fresh buf.data newCapacity, capacity := newCapacity }
    buf'.Valid ∧ buf'.queue.content = buf.queue.content := by
  have hlen : buf.size ≤ buf.data.length := by
    rw [h.length]
    exact h.size
  exact ⟨⟨length_realloc .., hsize⟩, take_realloc fresh hsize hlen⟩

theorem nvTcpBufferWrite_refines (h : buf.Valid)
    (hbound : buf.size + data.length < 2 ^ 31) (alloc : Option Fresh) :
    (nvTcpBufferWrite buf data alloc).1.Valid ∧
      (nvTcpBufferWrite buf data alloc).1.queue = (buf.queue.write data alloc.isSome).1 ∧
      (nvTcpBufferWrite buf data alloc).2 = (buf.queue.write data alloc.isSome).2 := by
  have hsum : sizeT (buf.size + data.length) = buf.size + data.length :=
    sizeT_of_lt (Nat.lt_trans hbound (by decide))
  have hcapacity : buf.queue.capacity = buf.capacity := rfl
  by_cases hgrow : buf.size + data.length > buf.capacity
  · have hdouble : sizeT (buf.capacity * 2) = buf.capacity * 2 := sizeT_of_lt (by omega)
    have hmax : (if buf.capacity * 2 < buf.size + data.length then buf.size + data.length
        else buf.capacity * 2) = max (buf.capacity * 2) (buf.size + data.length) := by
      split_ifs <;> omega
    cases alloc with
    | none =>
        simp only [nvTcpBufferWrite, Queue.write, hsum, hgrow, if_true, h.length_content, hcapacity,
          Nat.not_le.mpr hgrow, if_false, Option.isSome_none, Bool.false_eq_true, and_true]
        exact h
    | some fresh =>
        simp only [nvTcpBufferWrite, Queue.write, hsum, hgrow, if_true, h.length_content, hcapacity,
          Nat.not_le.mpr hgrow, if_false, Option.isSome_some, hdouble, hmax, and_true]
        have hroom : buf.size + data.length ≤ max (buf.capacity * 2) (buf.size + data.length) :=
          Nat.le_max_right ..
        obtain ⟨hvalid, hcontent⟩ := h.realloc fresh (Nat.le_trans (Nat.le_add_right ..) hroom)
        obtain ⟨hvalid', hqueue⟩ := hvalid.append hroom
        rw [hcontent] at hqueue
        exact ⟨hvalid', hqueue⟩
  · simp only [nvTcpBufferWrite, Queue.write, hsum, hgrow, if_false, h.length_content, hcapacity,
      Nat.not_lt.mp hgrow, if_true, and_true]
    exact h.append (Nat.not_lt.mp hgrow)

theorem nvTcpBufferWrite_failed {alloc : Option Fresh}
    (hfailed : (nvTcpBufferWrite buf data alloc).2 = -1) :
    (nvTcpBufferWrite buf data alloc).1 = buf := by
  by_cases hgrow : sizeT (buf.size + data.length) > buf.capacity
  · cases alloc with
    | none => simp only [nvTcpBufferWrite, hgrow, if_true]
    | some fresh => simp only [nvTcpBufferWrite, hgrow, if_true] at hfailed; cases hfailed
  · simp only [nvTcpBufferWrite, hgrow, if_false] at hfailed
    cases hfailed

theorem nvTcpBufferRead_eq (h : buf.Valid) (hbound : buf.size < 2 ^ 31) (len : Nat) :
    let n := min len buf.size
    ∃ data : List UInt8, data.length = buf.capacity ∧
      data.take (buf.size - n) = (buf.data.drop n).take (buf.size - n) ∧
      nvTcpBufferRead buf len =
        ({ buf with data := data, size := buf.size - n }, buf.data.take n, (n : Int)) := by
  intro n
  have hn : n ≤ buf.size := Nat.min_le_right ..
  have hlen : (if len > buf.size then buf.size else len) = n := by
    unfold n
    split_ifs <;> omega
  have hint : toInt n = n := by
    rw [toInt, Int.bmod_def]
    omega
  have hfits : n + (buf.size - n) ≤ buf.data.length := by
    have hsize := h.size
    rw [h.length]
    omega
  unfold nvTcpBufferRead
  rw [hlen]
  dsimp only
  rw [hint]
  by_cases hpos : n > 0
  · rw [if_pos hpos]
    by_cases hrest : n < buf.size
    · rw [if_pos hrest]
      exact ⟨_, (length_memmove hfits).trans h.length, take_memmove hfits, rfl⟩
    · have hall : buf.size - n = 0 := by omega
      rw [if_neg hrest]
      refine ⟨buf.data, h.length, ?_, rfl⟩
      rw [hall, List.take_zero, List.take_zero]
  · obtain hzero : n = 0 := by omega
    rw [if_neg hpos, hzero]
    exact ⟨buf.data, h.length, rfl, rfl⟩

theorem nvTcpBufferRead_refines (h : buf.Valid) (hbound : buf.size < 2 ^ 31) (len : Nat) :
    (nvTcpBufferRead buf len).1.Valid ∧
      (nvTcpBufferRead buf len).1.queue = (buf.queue.read len).1 ∧
      (nvTcpBufferRead buf len).2 = (buf.queue.read len).2 := by
  obtain ⟨data, hlen, hrest, heq⟩ := nvTcpBufferRead_eq h hbound len
  have hsize := h.size
  rw [heq]
  refine ⟨⟨hlen, by dsimp only; omega⟩, ?_⟩
  have hcontent : buf.queue.content.drop len = data.take (buf.size - min len buf.size) := by
    rw [hrest, TcpBuffer.queue, List.drop_take]
    by_cases hle : len ≤ buf.size
    · rw [Nat.min_eq_left hle]
    · rw [Nat.sub_eq_zero_of_le (by omega), Nat.sub_eq_zero_of_le (by omega), List.take_zero,
        List.take_zero]
  have htaken : buf.queue.content.take len = buf.data.take (min len buf.size) := List.take_take ..
  rw [Queue.read, hcontent, htaken, h.length_content]
  exact ⟨rfl, rfl⟩

theorem nvUdpBufferWrite_refines {buf : UdpBuffer} (h : buf.asTcp.Valid)
    (hbound : buf.size + data.length < 2 ^ 31) (alloc : Option Fresh) :
    (nvUdpBufferWrite buf data alloc).1.asTcp.Valid ∧
      (nvUdpBufferWrite buf data alloc).1.asTcp.queue =
        (buf.asTcp.queue.write data alloc.isSome).1 ∧
      (nvUdpBufferWrite buf data alloc).2 = (buf.asTcp.queue.write data alloc.isSome).2 := by
  have hrefines := nvTcpBufferWrite_refines h hbound alloc
  rwa [← asTcp_write] at hrefines

theorem nvUdpBufferRead_refines {buf : UdpBuffer} (h : buf.asTcp.Valid) (hbound : buf.size < 2 ^ 31)
    (len : Nat) :
    (nvUdpBufferRead buf len).1.asTcp.Valid ∧
      (nvUdpBufferRead buf len).1.asTcp.queue = (buf.asTcp.queue.read len).1 ∧
      (nvUdpBufferRead buf len).2 = (buf.asTcp.queue.read len).2 := by
  have hrefines := nvTcpBufferRead_refines h hbound len
  rwa [← asTcp_read] at hrefines

end Queue

section Session

/-- A call on both buffers; `realloc` fails for both or for none of them. -/
inductive BufferCall where
  | write (data : List UInt8) (alloc : Option (Fresh × Fresh))
  | read (len : Nat)

def BufferCall.length : BufferCall → Nat
  | .write data _ => data.length
  | .read _ => 0

/-- The two buffers, what was written to the first one, and what was read from it. -/
structure Session where
  tcp : TcpBuffer
  udp : UdpBuffer
  written : List UInt8
  returned : List UInt8

/-- One call on both buffers. -/
def sessionStep (s : Session) : BufferCall → Session
  | .write data alloc =>
      let tcp := nvTcpBufferWrite s.tcp data (alloc.map Prod.fst)
      let udp := nvUdpBufferWrite s.udp data (alloc.map Prod.snd)
      { tcp := tcp.1
        udp := udp.1
        written := if tcp.2 = 0 then s.written ++ data else s.written
        returned := s.returned }
  | .read len =>
      let tcp := nvTcpBufferRead s.tcp len
      let udp := nvUdpBufferRead s.udp len
      { tcp := tcp.1
        udp := udp.1
        written := s.written
        returned := s.returned ++ tcp.2.1 }

/-- The first buffer is a queue of what was written and not yet read. -/
structure IsQueue (s : Session) : Prop where
  size : s.tcp.size ≤ s.tcp.capacity
  stream : s.returned ++ s.tcp.data.take s.tcp.size = s.written

/-- The second buffer has the same fields, as far as they can be seen. -/
structure Agree (s : Session) : Prop where
  size : s.udp.size = s.tcp.size
  capacity : s.udp.capacity = s.tcp.capacity
  content : s.udp.data.take s.udp.size = s.tcp.data.take s.tcp.size

/-- What a call returns: a failed write changes nothing, a read takes what there is. -/
def Returns (s : Session) : BufferCall → Prop
  | .write data alloc =>
      let tcp := nvTcpBufferWrite s.tcp data (alloc.map Prod.fst)
      let udp := nvUdpBufferWrite s.udp data (alloc.map Prod.snd)
      (tcp.2 = 0 ∨ tcp.2 = -1 ∧ tcp.1 = s.tcp) ∧ udp.2 = tcp.2
  | .read len =>
      let tcp := nvTcpBufferRead s.tcp len
      let udp := nvUdpBufferRead s.udp len
      tcp.2.2 = Int.ofNat (min len s.tcp.size) ∧ tcp.2.1.length = min len s.tcp.size ∧
        udp.2 = tcp.2

/-- What is to hold of a call and after it. -/
def Faithful (s : Session) (call : BufferCall) : Prop :=
  Returns s call ∧ IsQueue (sessionStep s call) ∧ Agree (sessionStep s call)

/-- Both buffers stand for one queue. -/
structure SessionInv (s : Session) : Prop where
  tcp : s.tcp.Valid
  udp : s.udp.asTcp.Valid
  same : s.udp.asTcp.queue = s.tcp.queue
  stream : s.returned ++ s.tcp.queue.content = s.written

variable {s : Session}

theorem SessionInv.isQueue (h : SessionInv s) : IsQueue s where
  size := h.tcp.size
  stream := h.stream

theorem SessionInv.agree (h : SessionInv s) : Agree s where
  size := by
    have hlen := h.udp.length_content
    rw [h.same, h.tcp.length_content] at hlen
    exact hlen.symm
  capacity := congrArg Queue.capacity h.same
  content := congrArg Queue.content h.same

theorem Queue.write_cases (q : Queue) (data : List UInt8) (memory : Bool) :
    ((q.write data memory).2 = 0 ∧ (q.write data memory).1.content = q.content ++ data) ∨
      ((q.write data memory).2 = -1 ∧ (q.write data memory).1 = q) := by
  unfold Queue.write
  dsimp only
  split_ifs
  · exact Or.inl ⟨rfl, rfl⟩
  · exact Or.inl ⟨rfl, rfl⟩
  · exact Or.inr ⟨rfl, rfl⟩

theorem SessionInv.write (h : SessionInv s) {data : List UInt8}
    (hbound : s.tcp.size + data.length < 2 ^ 31) (alloc : Option (Fresh × Fresh)) :
    Returns s (.write data alloc) ∧ SessionInv (sessionStep s (.write data alloc)) := by
  have hbound' : s.udp.size + data.length < 2 ^ 31 := by rwa [h.agree.size]
  obtain ⟨htcp, hqueue, hrc⟩ := nvTcpBufferWrite_refines h.tcp hbound (alloc.map Prod.fst)
  obtain ⟨hudp, hqueue', hrc'⟩ := nvUdpBufferWrite_refines h.udp hbound' (alloc.map Prod.snd)
  rw [Option.isSome_map] at hqueue hrc hqueue' hrc'
  rw [h.same] at hqueue' hrc'
  have hsame := hqueue'.trans hqueue.symm
  have hresult := hrc'.trans hrc.symm
  rcases s.tcp.queue.write_cases data alloc.isSome with ⟨hok, hcontent⟩ | ⟨hfailed, hkept⟩
  · refine ⟨⟨Or.inl (hrc.trans hok), hresult⟩, ⟨htcp, hudp, hsame, ?_⟩⟩
    rw [sessionStep, if_pos (hrc.trans hok), hqueue, hcontent, ← List.append_assoc, h.stream]
  · have hne : (nvTcpBufferWrite s.tcp data (alloc.map Prod.fst)).2 ≠ 0 := by
      rw [hrc, hfailed]
      decide
    have hsame' := nvTcpBufferWrite_failed (hrc.trans hfailed)
    refine ⟨⟨Or.inr ⟨hrc.trans hfailed, hsame'⟩, hresult⟩, ⟨htcp, hudp, hsame, ?_⟩⟩
    rw [sessionStep, if_neg hne, hqueue, hkept, h.stream]

theorem SessionInv.read (h : SessionInv s) (hbound : s.tcp.size < 2 ^ 31) (len : Nat) :
    Returns s (.read len) ∧ SessionInv (sessionStep s (.read len)) := by
  have hbound' : s.udp.size < 2 ^ 31 := by rwa [h.agree.size]
  obtain ⟨htcp, hqueue, hresult⟩ := nvTcpBufferRead_refines h.tcp hbound len
  obtain ⟨hudp, hqueue', hresult'⟩ := nvUdpBufferRead_refines h.udp hbound' len
  rw [h.same] at hqueue' hresult'
  have hbytes : (nvTcpBufferRead s.tcp len).2.1 = s.tcp.queue.content.take len :=
    congrArg Prod.fst hresult
  have hrc : (nvTcpBufferRead s.tcp len).2.2 = Int.ofNat (min len s.tcp.size) := by
    rw [hresult, Queue.read, h.tcp.length_content]
  have hlen : (nvTcpBufferRead s.tcp len).2.1.length = min len s.tcp.size := by
    rw [hbytes, List.length_take, h.tcp.length_content]
  refine ⟨⟨hrc, hlen, hresult'.trans hresult.symm⟩,
    ⟨htcp, hudp, hqueue'.trans hqueue.symm, ?_⟩⟩
  rw [sessionStep, hqueue, hbytes, List.append_assoc, ← h.stream]
  exact congrArg (s.returned ++ ·) (List.take_append_drop len s.tcp.queue.content)

/-- Step lemma: a call, as long as the bytes it brings can be counted. -/
theorem SessionInv.step (h : SessionInv s) {call : BufferCall}
    (hbound : s.written.length + call.length < 2 ^ 31) :
    Faithful s call ∧ SessionInv (sessionStep s call) := by
  have hsize : s.tcp.size ≤ s.written.length := by
    rw [← h.stream, List.length_append, h.tcp.length_content]
    exact Nat.le_add_left ..
  have hstep : Returns s call ∧ SessionInv (sessionStep s call) := by
    cases call with
    | write data alloc =>
        exact h.write (Nat.lt_of_le_of_lt (Nat.add_le_add_right hsize _) hbound) alloc
    | read len => exact h.read (Nat.lt_of_le_of_lt hsize hbound) len
  obtain ⟨hreturns, hnext⟩ := hstep
  exact ⟨⟨hreturns, hnext.isQueue, hnext.agree⟩, hnext⟩

theorem length_written_step (s : Session) (call : BufferCall) :
    (sessionStep s call).written.length ≤ s.written.length + call.length := by
  cases call with
  | write data alloc =>
      rw [sessionStep, BufferCall.length]
      dsimp only
      split_ifs
      · rw [List.length_append]
      · exact Nat.le_add_right ..
  | read len => exact Nat.le_refl _

/-- Run lemma. -/
theorem SessionInv.along (h : SessionInv s) {calls : List BufferCall}
    (hbound : s.written.length + (calls.map BufferCall.length).sum < 2 ^ 31) :
    Along sessionStep Faithful s calls := by
  induction calls generalizing s with
  | nil => trivial
  | cons call calls ih =>
      rw [List.map_cons, List.sum_cons] at hbound
      have hfirst : s.written.length + call.length < 2 ^ 31 := by omega
      obtain ⟨hcall, hnext⟩ := h.step hfirst
      have hgrown := length_written_step s call
      exact ⟨hcall, ih hnext (by omega)⟩

end Session

/--
For all sizes and all calls that bring fewer than 2^31 bytes, whether `realloc` fails
or not: after each call the size is within the capacity and what was read, followed by
what is in the buffer, is what was written by the calls that returned 0; a write that
fails changes nothing, a read returns what there is up to its length, and the buffers
of both kinds give the same results.
-/
theorem nvTcpBuffer_nvUdpBuffer_queues
    (initialSize : Nat)
    (fresh fresh' : Fresh)
    {tcp : TcpBuffer}
    {udp : UdpBuffer}
    (htcp : nvTcpBufferCreate initialSize (some fresh) = some tcp)
    (hudp : nvUdpBufferCreate initialSize (some fresh') = some udp)
    {calls : List BufferCall}
    (hbound : (calls.map BufferCall.length).sum < 2 ^ 31) :
    Along sessionStep Faithful { tcp := tcp, udp := udp, written := [], returned := [] } calls := by
  obtain rfl := Option.some.inj htcp
  obtain rfl := Option.some.inj hudp
  have hinv : SessionInv
      { tcp := { data := malloc fresh initialSize, size := 0, capacity := initialSize }
        udp := { data := malloc fresh' initialSize, size := 0, capacity := initialSize }
        written := []
        returned := [] } :=
    { tcp := ⟨length_malloc .., Nat.zero_le _⟩
      udp := ⟨length_malloc .., Nat.zero_le _⟩
      same := rfl
      stream := rfl }
  exact hinv.along (by simpa using hbound)

/-- A buffer of two bytes that grows, fails to grow and is read in two parts. -/
theorem nvTcpBuffer_nvUdpBuffer_queues_grown :
    Along sessionStep Faithful
      { tcp := { data := [0, 0], size := 0, capacity := 2 }
        udp := { data := [1, 1], size := 0, capacity := 2 }
        written := []
        returned := [] }
      [.write [104, 105, 33] (some (fun _ => 0, fun _ => 1)), .write [1, 2, 3, 4] none, .read 1,
        .read 9] :=
  nvTcpBuffer_nvUdpBuffer_queues 2 (fun _ => 0) (fun _ => 1) rfl rfl (by decide)

end Libnv.Stream
