import Libnv.Bus.Pubsub
import Libnv.Lib.CText
import Libnv.Lib.Transition

/-!
# The broker's registry of clients

`nv_core_pubsub_ipc_thread_main` handles one datagram after the other.  SUB and
UNSUB first look for the entry of the peer under the topic of the packet, taken
as a C string; the entry that SUB makes holds the topic cut to 63 bytes.  A
topic field without a NUL is longer than any stored topic, so that its entries
are never found again.
-/

namespace Libnv.Bus

open Transition

/-- A datagram of the size of a packet, with its sender. -/
abbrev Datagram := Addr × Packet

/-- A round of `nv_core_pubsub_ipc_thread_main`. -/
def brokerStep (ctx : PubsubCtx) (d : Datagram) : PubsubCtx :=
  (ipcReceive ctx d.1 d.2).1

/-- The packet passes the checks of the loop and has the operation `op`. -/
def Packet.HasOp (pkt : Packet) (op : PubsubOp) : Prop :=
  pkt.magic = pubsubMagic ∧ pkt.topic.toList.getD 0 0 ≠ 0 ∧ pkt.op = op.code

instance (pkt : Packet) (op : PubsubOp) : Decidable (pkt.HasOp op) :=
  inferInstanceAs (Decidable (_ ∧ _ ∧ _))

def Packet.toUnsub (pkt : Packet) : Packet :=
  { pkt with op := PubsubOp.unsub.code }

/-- The topic field holds a NUL. -/
def Packet.Terminated (pkt : Packet) : Prop :=
  0 ∈ pkt.topic.toList

instance (pkt : Packet) : Decidable pkt.Terminated :=
  inferInstanceAs (Decidable (_ ∈ _))

/-- What tells the entries of the registry apart. -/
def IpcClient.key (client : IpcClient) : Addr × CString :=
  (client.addr, client.topic)

/-- At most one entry per pair of peer address and topic. -/
def Distinct (clients : List IpcClient) : Prop :=
  (clients.map IpcClient.key).Nodup

instance (clients : List IpcClient) : Decidable (Distinct clients) :=
  inferInstanceAs (Decidable (List.Nodup _))

/-- Neither a SUB nor an UNSUB from `peer`. -/
def Bystander (peer : Addr) (d : Datagram) : Prop :=
  d.1 = peer → ¬d.2.HasOp .sub ∧ ¬d.2.HasOp .unsub

/--
What the registry is expected to do with a datagram: its entries stay distinct;
repeating a SUB adds nothing; and the UNSUB for a SUB that made a new entry
leaves the list as if the SUB had not been there.  In between there may be any
datagrams but SUB and UNSUB from the same peer.
-/
structure FollowsPacket (ctx : PubsubCtx) (d : Datagram) : Prop where
  distinct : Distinct (brokerStep ctx d).clients
  repeated : d.2.HasOp .sub → ∀ mid, (∀ e ∈ mid, Bystander d.1 e) →
    (run brokerStep ctx (d :: mid ++ [d])).clients.length ≤
      (run brokerStep ctx (d :: mid)).clients.length
  undone : d.2.HasOp .sub → (d.1, d.2.topicText.take 63) ∉ ctx.clients.map IpcClient.key →
    ∀ mid, (∀ e ∈ mid, Bystander d.1 e) →
      (run brokerStep ctx (d :: mid ++ [(d.1, d.2.toUnsub)])).clients =
        (run brokerStep ctx mid).clients

/-- The entry that a SUB makes. -/
def newClient (topic : CString) (addr : Addr) : IpcClient where
  topic := topic.take (topicMax - 1)
  topic_lt := length_topic_lt topic
  addr := addr

theorem addIpcClient_clients (ctx : PubsubCtx) (topic : CString) (addr : Addr) :
    (nvCorePubsubAddIpcClient ctx topic addr).clients =
      newClient topic addr :: removeClient topic addr ctx.clients := rfl

/-- The registry after a datagram. -/
theorem brokerStep_clients (ctx : PubsubCtx) (d : Datagram) :
    (brokerStep ctx d).clients =
      if d.2.HasOp .sub then
        newClient d.2.topicText d.1 :: removeClient d.2.topicText d.1 ctx.clients
      else if d.2.HasOp .unsub then removeClient d.2.topicText d.1 ctx.clients
      else ctx.clients := by
  obtain ⟨peer, pkt⟩ := d
  have hop {op : PubsubOp} (hbad : ¬(pkt.magic ≠ pubsubMagic ∨ pkt.topic.toList.getD 0 0 = 0)) :
      pkt.HasOp op ↔ pkt.op = op.code := by
    obtain ⟨hmagic, htopic⟩ := not_or.mp hbad
    exact ⟨fun h => h.2.2, fun h => ⟨not_not.mp hmagic, htopic, h⟩⟩
  simp only [brokerStep, ipcReceive]
  by_cases hbad : pkt.magic ≠ pubsubMagic ∨ pkt.topic.toList.getD 0 0 = 0
  · have hnot (op : PubsubOp) : ¬pkt.HasOp op := by
      rintro ⟨hmagic, htopic, -⟩
      exact hbad.elim (fun h => h hmagic) htopic
    rw [if_pos hbad, if_neg (hnot .sub), if_neg (hnot .unsub)]
  · simp only [if_neg hbad, hop hbad]
    split
    · exact addIpcClient_clients ctx _ _
    · split
      · rfl
      · split <;> rfl

theorem removeClient_keys (topic : CString) (addr : Addr) (clients : List IpcClient) :
    (removeClient topic addr clients).map IpcClient.key =
      (clients.map IpcClient.key).erase (addr, topic) := by
  induction clients with
  | nil => rfl
  | cons client clients ih =>
      by_cases h : client.topic = topic ∧ client.addr = addr
      · have hkey : client.key = (addr, topic) := Prod.ext h.2 h.1
        simp [removeClient, h, hkey]
      · have hkey : client.key ≠ (addr, topic) := by
          intro heq
          exact h ⟨congrArg Prod.snd heq, congrArg Prod.fst heq⟩
        simp [removeClient, h, List.erase_cons_tail, hkey, ih]

theorem removeClient_long (topic : CString) (addr : Addr) (clients : List IpcClient)
    (h : topicMax ≤ topic.length) : removeClient topic addr clients = clients := by
  induction clients with
  | nil => rfl
  | cons client clients ih =>
      have hne : ¬(client.topic = topic ∧ client.addr = addr) := by
        rintro ⟨htopic, -⟩
        have hlt := client.topic_lt
        rw [htopic] at hlt
        omega
      rw [removeClient, if_neg hne, ih]

theorem topicText_length_of_terminated (pkt : Packet) (h : pkt.Terminated) :
    pkt.topicText.length < topicMax := by
  by_contra hlong
  have htext : pkt.topicText.bytes <+: pkt.topic.toList ++ pkt.data.toList :=
    List.takeWhile_prefix _
  have hlen : pkt.topic.toList.length ≤ pkt.topicText.bytes.length := by
    rw [Vector.length_toList]
    exact Nat.not_lt.mp hlong
  have hpre := List.prefix_of_prefix_length_le (List.prefix_append _ _) htext hlen
  exact pkt.topicText.nulFree (hpre.subset h)

theorem topicText_length_of_not_terminated (pkt : Packet) (h : ¬pkt.Terminated) :
    topicMax ≤ pkt.topicText.length := by
  simp only [CString.length, Packet.topicText, CString.ofBuffer]
  rw [List.takeWhile_append_of_pos (decide_ne_of_not_mem h), List.length_append,
    Vector.length_toList]
  exact Nat.le_add_right _ _

section Middle

/-- `without` lacks the entry `client` of `clients`; no entry before it has its key. -/
def Extra (client : IpcClient) (clients without : List IpcClient) : Prop :=
  ∃ front back, clients = front ++ client :: back ∧ without = front ++ back ∧
    ∀ c ∈ front, c.key ≠ client.key

variable {client : IpcClient} {clients without : List IpcClient}

theorem Extra.remove_self (h : Extra client clients without) :
    removeClient client.topic client.addr clients = without := by
  obtain ⟨front, back, rfl, rfl, hfront⟩ := h
  induction front with
  | nil => simp [removeClient]
  | cons c front ih =>
      have hne : ¬(c.topic = client.topic ∧ c.addr = client.addr) := by
        rintro ⟨htopic, haddr⟩
        exact hfront c List.mem_cons_self (Prod.ext haddr htopic)
      simp only [List.cons_append, removeClient, if_neg hne]
      rw [ih fun c hc => hfront c (List.mem_cons_of_mem _ hc)]

theorem Extra.remove_other (h : Extra client clients without) (topic : CString) {addr : Addr}
    (haddr : client.addr ≠ addr) :
    Extra client (removeClient topic addr clients) (removeClient topic addr without) := by
  obtain ⟨front, back, rfl, rfl, hfront⟩ := h
  induction front with
  | nil =>
      refine ⟨[], removeClient topic addr back, ?_, rfl, by simp⟩
      simp [removeClient, haddr]
  | cons c front ih =>
      have hrest : ∀ c ∈ front, c.key ≠ client.key :=
        fun c hc => hfront c (List.mem_cons_of_mem _ hc)
      simp only [List.cons_append, removeClient]
      split
      · exact ⟨front, back, rfl, rfl, hrest⟩
      · obtain ⟨front', back', heq, heq', hfront'⟩ := ih hrest
        refine ⟨c :: front', back', by rw [heq]; rfl, by rw [heq']; rfl, ?_⟩
        rintro e (_ | ⟨_, he⟩)
        · exact hfront c List.mem_cons_self
        · exact hfront' e he

theorem Extra.cons_other (h : Extra client clients without) {c : IpcClient}
    (haddr : client.addr ≠ c.addr) : Extra client (c :: clients) (c :: without) := by
  obtain ⟨front, back, rfl, rfl, hfront⟩ := h
  refine ⟨c :: front, back, rfl, rfl, ?_⟩
  rintro e (_ | ⟨_, he⟩)
  · exact fun hkey => haddr (congrArg Prod.fst hkey).symm
  · exact hfront e he

/-- A datagram of a bystander treats both lists alike. -/
theorem Extra.step {ctx ctx' : PubsubCtx} {d : Datagram} (h : Extra client ctx.clients ctx'.clients)
    (hd : Bystander client.addr d) :
    Extra client (brokerStep ctx d).clients (brokerStep ctx' d).clients := by
  rw [brokerStep_clients, brokerStep_clients]
  split
  case isTrue hsub =>
    have haddr : client.addr ≠ d.1 := fun heq => (hd heq.symm).1 hsub
    exact (h.remove_other _ haddr).cons_other haddr
  case isFalse =>
    split
    case isTrue hunsub =>
      have haddr : client.addr ≠ d.1 := fun heq => (hd heq.symm).2 hunsub
      exact h.remove_other _ haddr
    case isFalse => exact h

theorem Extra.run {ctx ctx' : PubsubCtx} {mid : List Datagram}
    (h : Extra client ctx.clients ctx'.clients) (hmid : ∀ e ∈ mid, Bystander client.addr e) :
    Extra client (run brokerStep ctx mid).clients (run brokerStep ctx' mid).clients := by
  induction mid generalizing ctx ctx' with
  | nil => exact h
  | cons d mid ih =>
      have hstep := h.step (hmid d List.mem_cons_self)
      exact ih hstep fun e he => hmid e (List.mem_cons_of_mem _ he)

end Middle

section Packets

variable {ctx : PubsubCtx} {d : Datagram}

/-- An entry made under a topic with its NUL is found again. -/
theorem newClient_topic (h : d.2.Terminated) :
    (newClient d.2.topicText d.1).topic = d.2.topicText :=
  CString.take_eq_self (Nat.le_of_lt_succ (topicText_length_of_terminated d.2 h))

/-- A SUB, and what follows it, only adds the entry to a list without it. -/
theorem extra_sub {mid : List Datagram} (ctx : PubsubCtx) (hsub : d.2.HasOp .sub)
    (hmid : ∀ e ∈ mid, Bystander d.1 e) :
    Extra (newClient d.2.topicText d.1) (run brokerStep ctx (d :: mid)).clients
      (run brokerStep (nvCorePubsubRemoveIpcClient ctx d.2.topicText d.1) mid).clients := by
  have hhead : Extra (newClient d.2.topicText d.1) (brokerStep ctx d).clients
      (nvCorePubsubRemoveIpcClient ctx d.2.topicText d.1).clients := by
    rw [brokerStep_clients, if_pos hsub]
    exact ⟨[], _, rfl, rfl, by simp⟩
  exact hhead.run hmid

/-- Both SUB and UNSUB find the entry again. -/
theorem remove_sub {mid : List Datagram} (ctx : PubsubCtx) (hsub : d.2.HasOp .sub)
    (hterm : d.2.Terminated) (hmid : ∀ e ∈ mid, Bystander d.1 e) :
    removeClient d.2.topicText d.1 (run brokerStep ctx (d :: mid)).clients =
      (run brokerStep (nvCorePubsubRemoveIpcClient ctx d.2.topicText d.1) mid).clients := by
  have hremove := (extra_sub ctx hsub hmid).remove_self
  rwa [newClient_topic hterm] at hremove

theorem removeClient_of_not_mem {topic : CString} {addr : Addr} {clients : List IpcClient}
    (h : (addr, topic) ∉ clients.map IpcClient.key) :
    removeClient topic addr clients = clients := by
  induction clients with
  | nil => rfl
  | cons client clients ih =>
      rw [List.map_cons, List.mem_cons, not_or] at h
      have hne : ¬(client.topic = topic ∧ client.addr = addr) := by
        rintro ⟨rfl, rfl⟩
        exact h.1 rfl
      rw [removeClient, if_neg hne, ih h.2]

theorem distinct_step (hctx : Distinct ctx.clients) (hterm : d.2.HasOp .sub → d.2.Terminated) :
    Distinct (brokerStep ctx d).clients := by
  have hremove : Distinct (removeClient d.2.topicText d.1 ctx.clients) := by
    rw [Distinct, removeClient_keys]
    exact hctx.erase _
  rw [brokerStep_clients]
  split
  case isTrue hsub =>
    have hkey : (newClient d.2.topicText d.1).key = (d.1, d.2.topicText) :=
      Prod.ext rfl (newClient_topic (hterm hsub))
    rw [Distinct, List.map_cons, List.nodup_cons, hkey, removeClient_keys]
    exact ⟨hctx.not_mem_erase, hctx.erase _⟩
  case isFalse =>
    split
    · exact hremove
    · exact hctx

theorem followsPacket_of_terminated (hctx : Distinct ctx.clients)
    (hterm : d.2.HasOp .sub → d.2.Terminated) : FollowsPacket ctx d where
  distinct := distinct_step hctx hterm
  repeated hsub mid hmid := by
    have hremove := remove_sub ctx hsub (hterm hsub) hmid
    obtain ⟨front, back, hwith, hwithout, -⟩ := extra_sub ctx hsub hmid
    rw [run_append, run_cons, run_nil, brokerStep_clients, if_pos hsub, hremove, hwith, hwithout]
    simp only [List.length_append, List.length_cons]
    omega
  undone hsub hnew mid hmid := by
    have hterm' := hterm hsub
    have hunsub : d.2.toUnsub.HasOp .unsub := ⟨hsub.1, hsub.2.1, rfl⟩
    have hnot : ¬d.2.toUnsub.HasOp .sub := by
      rintro ⟨-, -, hop⟩
      have hne : PubsubOp.unsub.code ≠ PubsubOp.sub.code := by decide
      exact hne hop
    have hsame : nvCorePubsubRemoveIpcClient ctx d.2.topicText d.1 = ctx := by
      have hcut : d.2.topicText.take 63 = d.2.topicText := newClient_topic hterm'
      rw [hcut] at hnew
      rw [nvCorePubsubRemoveIpcClient, removeClient_of_not_mem hnew]
    have hremove := remove_sub ctx hsub hterm' hmid
    rw [hsame] at hremove
    rw [run_append, run_cons, run_nil, brokerStep_clients, if_neg hnot, if_pos hunsub]
    exact hremove

/-- Repeating a SUB without a NUL always makes a second entry. -/
theorem terminated_of_followsPacket (h : FollowsPacket ctx d) (hsub : d.2.HasOp .sub) :
    d.2.Terminated := by
  by_contra hterm
  have hlong := topicText_length_of_not_terminated d.2 hterm
  have hrep := h.repeated hsub [] (by simp)
  simp only [List.cons_append, List.nil_append, run_cons, run_nil] at hrep
  rw [brokerStep_clients (brokerStep ctx d) d, if_pos hsub, removeClient_long _ _ _ hlong,
    List.length_cons] at hrep
  omega

/--
The registry follows the packets of a run exactly when every SUB among them
has a NUL in its topic field.
-/
theorem nvCorePubsub_registry_follows_iff
    (ctx : PubsubCtx)
    (hctx : Distinct ctx.clients)
    (ds : List Datagram) :
    Along brokerStep FollowsPacket ctx ds ↔
      ∀ d ∈ ds, d.2.HasOp .sub → d.2.Terminated := by
  calc Along brokerStep FollowsPacket ctx ds
      ↔ Along brokerStep (fun _ d => d.2.HasOp .sub → d.2.Terminated) ctx ds := by
        refine @along_iff_along_of_inv _ _ brokerStep (fun ctx => Distinct ctx.clients) _ _ ctx
          hctx (fun ctx d hctx hterm => ?_) (fun ctx d hctx => ?_) ds
        · exact distinct_step hctx hterm
        · exact ⟨terminated_of_followsPacket, followsPacket_of_terminated hctx⟩
    _ ↔ ∀ d ∈ ds, d.2.HasOp .sub → d.2.Terminated := along_iff_forall_mem ctx ds

/-- A client that subscribes through the library, twice, and one that unsubscribes. -/
theorem filled_packets_followed :
    Along brokerStep FollowsPacket emptyBroker
      [([1], nvPubsubFillPacket .sub (CText.lit "cpu") []),
        ([1], nvPubsubFillPacket .sub (CText.lit "cpu") []),
        ([2], nvPubsubFillPacket .unsub (CText.lit "cpu") [])] :=
  (nvCorePubsub_registry_follows_iff emptyBroker (by decide) _).mpr (by decide +kernel)

def fullTopicSub : Packet where
  magic := pubsubMagic
  op := PubsubOp.sub.code
  len := 0
  topic := Vector.replicate topicMax 97
  data := CBuffer.zero dataMax

/-- It is registered twice under the same topic, and UNSUB does not find it. -/
theorem full_topic_registered_twice :
    ¬Distinct (run brokerStep emptyBroker [([1], fullTopicSub), ([1], fullTopicSub)]).clients ∧
      (run brokerStep emptyBroker
        [([1], fullTopicSub), ([1], fullTopicSub.toUnsub)]).clients.length = 1 := by
  decide +kernel

end Packets

end Libnv.Bus
