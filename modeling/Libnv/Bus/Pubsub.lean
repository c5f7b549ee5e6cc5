import Libnv.Base.Status
import Libnv.Lib.CBuffer

/-!
# Publish and subscribe

Subscribers in the process are kept in `ctx->pubsubs` under their whole topic.
Subscribers in other processes are known to the broker by the address of their
socket and a topic of at most 63 bytes; they and remote publishers exchange
packets of a fixed layout with the broker.

Here are the packets, the two registries, and what one message causes when no
other thread interferes.  Allocation is taken to succeed, payloads are not
`NULL`, and every datagram has the size of a packet.
-/

namespace Libnv.Bus

abbrev topicMax : Nat := 64

abbrev dataMax : Nat := 512

def pubsubMagic : UInt32 := 0x4e565053

/-- `nv_pubsub_op_t`. -/
inductive PubsubOp where
  | pub
  | sub
  | unsub
deriving DecidableEq

/-- The number that stands for an operation in a packet. -/
def PubsubOp.code : PubsubOp → UInt32
  | .pub => 1
  | .sub => 2
  | .unsub => 3

/-- `nv_pubsub_packet_t`. -/
structure Packet where
  magic : UInt32
  op : UInt32
  len : UInt32
  topic : CBuffer topicMax
  data : CBuffer dataMax
deriving DecidableEq

/-- `pkt->topic` as a C string; without a NUL it runs on into `pkt->data`. -/
def Packet.topicText (pkt : Packet) : CString :=
  CString.ofBuffer (pkt.topic.toList ++ pkt.data.toList)

/-- The payload, with `pkt->len` cut to the size of the field. -/
def Packet.payload (pkt : Packet) : List UInt8 :=
  pkt.data.toList.take (min pkt.len.toNat dataMax)

/-- The bytes of a socket address. -/
abbrev Addr := List UInt8

/-- `nv_core_pubsub_t`; the identifier also stands for the handler and its data. -/
structure Sub where
  id : Nat
  topic : CString
  active : Bool
  calls : Int
deriving DecidableEq

/-- `nv_core_pubsub_ipc_client_t`: `snprintf` cuts the topic. -/
structure IpcClient where
  topic : CString
  topic_lt : topic.length < topicMax
  addr : Addr
deriving DecidableEq

/-- The part of `nv_core_ctx_t` for publish and subscribe, after `nv_core_pubsub_init`. -/
structure PubsubCtx where
  /-- `ctx->pubsubs`. -/
  subs : List Sub
  /-- `ctx->pubsub_next_id`. -/
  nextId : Nat
  /-- `ctx->pubsub_ipc_clients`. -/
  clients : List IpcClient
  /-- `ctx->pubsub_ipc_fd >= 0`. -/
  ipcOpen : Bool
deriving DecidableEq

/-- The broker before the first subscription. -/
def emptyBroker : PubsubCtx where
  subs := []
  nextId := 1
  clients := []
  ipcOpen := true

def nvPubsubFillPacket (op : PubsubOp) (topic : CString) (data : List UInt8) : Packet where
  magic := pubsubMagic
  op := op.code
  len := UInt32.ofNat (min data.length dataMax)
  topic := (CBuffer.zero topicMax).snprintf topic
  data := (CBuffer.zero dataMax).fill (data.take dataMax)

/-- The loop of `nv_core_pubsub_remove_ipc_client`. -/
def removeClient (topic : CString) (addr : Addr) : List IpcClient → List IpcClient
  | [] => []
  | client :: clients =>
      if client.topic = topic ∧ client.addr = addr then clients
      else client :: removeClient topic addr clients

def nvCorePubsubRemoveIpcClient (ctx : PubsubCtx) (topic : CString) (addr : Addr) :
    PubsubCtx :=
  { ctx with clients := removeClient topic addr ctx.clients }

theorem length_topic_lt (topic : CString) : (topic.take (topicMax - 1)).length < topicMax :=
  Nat.lt_of_le_of_lt (topic.length_take_le _) (by decide)

def nvCorePubsubAddIpcClient (ctx : PubsubCtx) (topic : CString) (addr : Addr) : PubsubCtx :=
  let ctx := nvCorePubsubRemoveIpcClient ctx topic addr
  let client : IpcClient :=
    { topic := topic.take (topicMax - 1)
      topic_lt := length_topic_lt topic
      addr := addr }
  { ctx with clients := client :: ctx.clients }

/-- The packets sent, with their destinations. -/
def nvCorePubsubPublishIpc (ctx : PubsubCtx) (topic : CString) (data : List UInt8) :
    List (Addr × Packet) :=
  if ctx.ipcOpen then
    let pkt := nvPubsubFillPacket .pub topic data
    (ctx.clients.filter fun client => client.topic = topic).map fun client =>
      (client.addr, pkt)
  else []

/-- The call of a handler: the subscription, the topic and the payload. -/
structure HandlerCall where
  sub : Sub
  topic : CString
  data : List UInt8
deriving DecidableEq

/-- What a message causes: calls of handlers, then packets. -/
structure Publication where
  calls : List HandlerCall
  sends : List (Addr × Packet)
deriving DecidableEq

/-- The subscriptions that `nv_core_pubsub_publish` takes into its snapshot. -/
def snapshot (subs : List Sub) (topic : CString) : List Sub :=
  subs.filter fun sub => sub.active ∧ sub.topic = topic

/-- An empty topic is refused with `NV_ERROR`. -/
def nvCorePubsubPublish (ctx : PubsubCtx) (topic : CString) (data : List UInt8) :
    Publication :=
  if topic = CString.empty then ⟨[], []⟩
  else
    let data := data.take dataMax
    { calls := (snapshot ctx.subs topic).map fun sub => ⟨sub, sub.topic, data⟩
      sends := nvCorePubsubPublishIpc ctx topic data }

/-- A round of `nv_core_pubsub_ipc_thread_main`, for a packet from `peer`. -/
def ipcReceive (ctx : PubsubCtx) (peer : Addr) (pkt : Packet) : PubsubCtx × Publication :=
  if pkt.magic ≠ pubsubMagic ∨ pkt.topic.toList.getD 0 0 = 0 then (ctx, ⟨[], []⟩)
  else if pkt.op = PubsubOp.sub.code then
    (nvCorePubsubAddIpcClient ctx pkt.topicText peer, ⟨[], []⟩)
  else if pkt.op = PubsubOp.unsub.code then
    (nvCorePubsubRemoveIpcClient ctx pkt.topicText peer, ⟨[], []⟩)
  else if pkt.op = PubsubOp.pub.code then
    (ctx, nvCorePubsubPublish ctx pkt.topicText pkt.payload)
  else (ctx, ⟨[], []⟩)

/-- The packet of `nv_core_pubsub_client_publish`; `none` is `NV_ERROR`. -/
def nvCorePubsubClientPublish (topic : CString) (data : List UInt8) : Option Packet :=
  if topic = CString.empty then none else some (nvPubsubFillPacket .pub topic data)

/-- The packet with which `nv_core_pubsub_client_subscribe` registers. -/
def nvCorePubsubClientSubscribe (topic : CString) : Option Packet :=
  if topic = CString.empty then none else some (nvPubsubFillPacket .sub topic [])

/-- The loop of `nv_core_pubsub_client_subscribe`: the payload it hands to its handler. -/
def clientReceive (topic : CString) (pkt : Packet) : Option (List UInt8) :=
  if pkt.magic = pubsubMagic ∧ pkt.op = PubsubOp.pub.code ∧ pkt.topicText = topic then
    some pkt.payload
  else none

@[simp] theorem fillPacket_topicText (op : PubsubOp) (topic : CString) (data : List UInt8) :
    (nvPubsubFillPacket op topic data).topicText = topic.take 63 := by
  obtain ⟨rest, h⟩ := (CBuffer.zero topicMax).snprintf_toList topic (by decide)
  simp only [Packet.topicText, nvPubsubFillPacket, h, List.append_assoc, List.cons_append]
  exact CString.ofBuffer_append_nul _ _

@[simp] theorem fillPacket_payload (op : PubsubOp) (topic : CString) (data : List UInt8) :
    (nvPubsubFillPacket op topic data).payload = data.take dataMax := by
  have hle : (data.take dataMax).length ≤ dataMax := List.length_take_le _ _
  have hlen : (UInt32.ofNat (min data.length dataMax)).toNat = (data.take dataMax).length := by
    rw [Nat.min_comm, ← List.length_take]
    exact UInt32.toNat_ofNat_of_lt' (Nat.lt_of_le_of_lt hle (by decide))
  simp only [Packet.payload, nvPubsubFillPacket, hlen, Nat.min_eq_left hle]
  exact CBuffer.fill_take _ hle

theorem fillPacket_topic_ne_zero
    {topic : CString} (h : topic ≠ CString.empty) (op : PubsubOp) (data : List UInt8) :
    (nvPubsubFillPacket op topic data).topic.toList.getD 0 0 ≠ 0 := by
  obtain ⟨rest, heq⟩ := (CBuffer.zero topicMax).snprintf_toList topic (by decide)
  obtain ⟨bytes, hnul⟩ := topic
  cases bytes with
  | nil => exact absurd rfl h
  | cons b bytes =>
      simp only [nvPubsubFillPacket, heq]
      intro hb
      exact hnul (by simpa using Or.inl hb.symm)

end Libnv.Bus
