import Libnv.Bus.Pubsub
import Libnv.Lib.CText

/-!
# Which subscribers a message reaches

A topic is compared at up to four places on its way: with the topics of the
subscriptions in the process and of the registered clients, which the broker
keeps cut to 63 bytes, and once more by the receiving client.  A message from
another process arrives with its topic cut.
-/

namespace Libnv.Bus

open CText

section Spec

/-- Where a message is published. -/
inductive Origin where
  /-- `nv_core_pubsub_publish`. -/
  | inProcess
  /-- `nv_core_pubsub_client_publish` in another process. -/
  | remote (peer : Addr)
deriving DecidableEq

/-- A subscription in the process, or the socket of a subscribed client. -/
inductive Subscriber where
  | inProcess (sub : Sub)
  | remote (addr : Addr)
deriving DecidableEq

variable (ctx : PubsubCtx) (origin : Origin) (t : CString) (data : List UInt8) (s : CString)

/-- What a message on `t` causes at the broker. -/
def publishFrom : Publication :=
  match origin with
  | .inProcess => nvCorePubsubPublish ctx t data
  | .remote peer =>
      match nvCorePubsubClientPublish t data with
      | some pkt => (ipcReceive ctx peer pkt).2
      | none => ⟨[], []⟩

/-- The subscriber is active for `s`, or registered with the broker for it. -/
def Subscribed : Subscriber → Prop
  | .inProcess sub => sub ∈ ctx.subs ∧ sub.active = true ∧ sub.topic = s
  | .remote addr => ctx.ipcOpen = true ∧
      ∃ client ∈ ctx.clients, client.addr = addr ∧ client.topic = s.take 63

/-- The handler of the subscriber, who listens for `s`, is called with `bytes`. -/
def Receives (bytes : List UInt8) : Subscriber → Prop
  | .inProcess sub => ∃ call ∈ (publishFrom ctx origin t data).calls,
      call.sub = sub ∧ call.data = bytes
  | .remote addr => ∃ pkt, (addr, pkt) ∈ (publishFrom ctx origin t data).sends ∧
      clientReceive s pkt = some bytes

/-- The message reaches the subscriber exactly on its own topic, with its payload. -/
structure ExactDelivery (subscriber : Subscriber) : Prop where
  delivered : (∃ bytes, Receives ctx origin t data s bytes subscriber) ↔ s = t
  payload : ∀ bytes, Receives ctx origin t data s bytes subscriber → bytes = data.take dataMax

/-- The topics between which cutting to 63 bytes makes no difference. -/
def TopicFits (s t : CString) : Origin → Subscriber → Prop
  | .inProcess, .inProcess _ => True
  | .inProcess, .remote _ => s = t → t.length < topicMax
  | .remote _, _ => t.length < topicMax ∨ s ≠ t ∧ s ≠ t.take 63

end Spec

section Paths

variable {ctx : PubsubCtx} {t s : CString} {data : List UInt8}

/-- The topic under which the broker handles a message. -/
def Origin.topic (origin : Origin) (t : CString) : CString :=
  match origin with
  | .inProcess => t
  | .remote _ => t.take 63

theorem take_ne_empty (ht : t ≠ CString.empty) : t.take 63 ≠ CString.empty := by
  obtain ⟨bytes, hnul⟩ := t
  cases bytes with
  | nil => exact absurd rfl ht
  | cons b bytes =>
      intro h
      simpa [CString.take, CString.empty] using congrArg CString.bytes h

theorem fillPacket_accepted (op : PubsubOp) (data : List UInt8) (ht : t ≠ CString.empty) :
    ¬ ((nvPubsubFillPacket op t data).magic ≠ pubsubMagic ∨
      (nvPubsubFillPacket op t data).topic.toList.getD 0 0 = 0) := by
  rintro (hmagic | hfirst)
  · exact hmagic rfl
  · exact fillPacket_topic_ne_zero ht op data hfirst

/-- The broker publishes what a packet holds. -/
theorem ipcReceive_pub
    (ctx : PubsubCtx) (peer : Addr) (data : List UInt8) (ht : t ≠ CString.empty) :
    ipcReceive ctx peer (nvPubsubFillPacket .pub t data) =
      (ctx, nvCorePubsubPublish ctx (t.take 63) (data.take dataMax)) := by
  rw [ipcReceive, if_neg (fillPacket_accepted .pub data ht), fillPacket_topicText,
    fillPacket_payload]
  rfl

/-- The broker registers a client under the topic of its packet. -/
theorem ipcReceive_sub
    (ctx : PubsubCtx) (peer : Addr) (data : List UInt8) (ht : t ≠ CString.empty) :
    ipcReceive ctx peer (nvPubsubFillPacket .sub t data) =
      (nvCorePubsubAddIpcClient ctx (t.take 63) peer, ⟨[], []⟩) := by
  rw [ipcReceive, if_neg (fillPacket_accepted .sub data ht), fillPacket_topicText]
  rfl

/-- A client is registered once the broker has received its packet. -/
theorem subscribed_of_client_subscribe
    {pkt : Packet} (ctx : PubsubCtx) (hopen : ctx.ipcOpen = true) (addr : Addr)
    (hpkt : nvCorePubsubClientSubscribe s = some pkt) :
    Subscribed (ipcReceive ctx addr pkt).1 s (.remote addr) := by
  simp only [nvCorePubsubClientSubscribe, Option.ite_none_left_eq_some,
    Option.some.injEq] at hpkt
  obtain ⟨hs, rfl⟩ := hpkt
  rw [ipcReceive_sub ctx addr [] hs]
  refine ⟨hopen, _, List.mem_cons_self, rfl, ?_⟩
  exact CString.take_eq_self (s.length_take_le 63)

/-- Both origins end in `nv_core_pubsub_publish`. -/
theorem publishFrom_eq
    (ctx : PubsubCtx) (origin : Origin) (data : List UInt8) (ht : t ≠ CString.empty) :
    publishFrom ctx origin t data =
      { calls := (snapshot ctx.subs (origin.topic t)).map fun sub =>
          ⟨sub, sub.topic, data.take dataMax⟩
        sends := nvCorePubsubPublishIpc ctx (origin.topic t) (data.take dataMax) } := by
  cases origin with
  | inProcess => simp only [publishFrom, nvCorePubsubPublish, Origin.topic, if_neg ht]
  | remote peer =>
      simp only [publishFrom, nvCorePubsubClientPublish, if_neg ht, ipcReceive_pub ctx peer data ht,
        nvCorePubsubPublish, if_neg (take_ne_empty ht), Origin.topic, List.take_take, Nat.min_self]

theorem receives_inProcess_iff
    {sub : Sub} {bytes : List UInt8} (origin : Origin) (ht : t ≠ CString.empty)
    (hsub : Subscribed ctx s (.inProcess sub)) :
    Receives ctx origin t data s bytes (.inProcess sub) ↔
      s = origin.topic t ∧ bytes = data.take dataMax := by
  obtain ⟨hmem, hactive, rfl⟩ := hsub
  simp only [Receives, publishFrom_eq ctx origin data ht, List.mem_map, snapshot,
    List.mem_filter, decide_eq_true_eq]
  constructor
  · rintro ⟨call, ⟨sub', ⟨-, -, htopic⟩, rfl⟩, rfl, rfl⟩
    exact ⟨htopic, rfl⟩
  · rintro ⟨htopic, rfl⟩
    exact ⟨_, ⟨sub, ⟨hmem, hactive, htopic⟩, rfl⟩, rfl, rfl⟩

/-- A client takes a packet that carries its whole topic. -/
theorem clientReceive_pub {bytes : List UInt8} :
    clientReceive s (nvPubsubFillPacket .pub t data) = some bytes ↔
      t.take 63 = s ∧ data.take dataMax = bytes := by
  have hheader : (nvPubsubFillPacket .pub t data).magic = pubsubMagic ∧
      (nvPubsubFillPacket .pub t data).op = PubsubOp.pub.code := ⟨rfl, rfl⟩
  simp [clientReceive, hheader]

/-- A client receives what is published on a topic that fits into a packet. -/
theorem receives_remote_iff
    {addr : Addr} {bytes : List UInt8} (origin : Origin) (ht : t ≠ CString.empty)
    (hsub : Subscribed ctx s (.remote addr)) :
    Receives ctx origin t data s bytes (.remote addr) ↔
      (s = origin.topic t ∧ (origin.topic t).length < topicMax) ∧ bytes = data.take dataMax := by
  obtain ⟨hopen, client, hmem, rfl, hclient⟩ := hsub
  simp only [Receives, publishFrom_eq ctx origin data ht, nvCorePubsubPublishIpc, hopen, if_true,
    List.mem_map, List.mem_filter, decide_eq_true_eq, Prod.mk.injEq]
  constructor
  · rintro ⟨pkt, ⟨client', ⟨-, htopic⟩, -, rfl⟩, hreceive⟩
    have hlt : (origin.topic t).length < topicMax := htopic ▸ client'.topic_lt
    obtain ⟨hs, hdata⟩ := clientReceive_pub.mp hreceive
    rw [CString.take_eq_self (Nat.le_of_lt_succ hlt)] at hs
    rw [List.take_take, Nat.min_self] at hdata
    exact ⟨⟨hs.symm, hlt⟩, hdata.symm⟩
  · rintro ⟨⟨hs, hlt⟩, rfl⟩
    have hcut : (origin.topic t).take 63 = origin.topic t :=
      CString.take_eq_self (Nat.le_of_lt_succ hlt)
    refine ⟨_, ⟨client, ⟨hmem, ?_⟩, rfl, rfl⟩, clientReceive_pub.mpr ⟨?_, ?_⟩⟩
    · rw [hclient, hs, hcut]
    · rw [hcut, hs]
    · rw [List.take_take, Nat.min_self]

end Paths

section Exact

variable {ctx : PubsubCtx} {origin : Origin} {t s : CString} {data : List UInt8}
variable {subscriber : Subscriber}

theorem exactDelivery_iff {arrives : Prop}
    (h : ∀ bytes, Receives ctx origin t data s bytes subscriber ↔
      arrives ∧ bytes = data.take dataMax) :
    ExactDelivery ctx origin t data s subscriber ↔ (arrives ↔ s = t) := by
  constructor
  · rintro ⟨hdelivered, -⟩
    rw [← hdelivered]
    simp only [h, exists_eq_right]
  · intro harrives
    refine ⟨?_, fun bytes hbytes => ((h bytes).mp hbytes).2⟩
    simp only [h, exists_eq_right, harrives]

theorem take_eq_self_iff : t.take 63 = t ↔ t.length < topicMax := by
  constructor
  · intro h
    have := t.length_take_le 63
    rw [h] at this
    exact Nat.lt_succ_of_le this
  · intro h
    exact CString.take_eq_self (Nat.le_of_lt_succ h)

theorem cut_topic_exact_iff :
    (s = t.take 63 ↔ s = t) ↔ t.length < topicMax ∨ s ≠ t ∧ s ≠ t.take 63 := by
  rw [← take_eq_self_iff]
  constructor
  · intro h
    by_cases hs : s = t
    · exact Or.inl ((h.mpr hs).symm.trans hs)
    · exact Or.inr ⟨hs, fun hcut => hs (h.mp hcut)⟩
  · rintro (hfits | ⟨hne, hcut⟩)
    · rw [hfits]
    · exact iff_of_false hcut hne

/--
A message on `t` reaches a subscriber of `s` exactly if `s = t`, and with its
payload, on every path on which cutting the topics to 63 bytes makes no difference.
-/
theorem nvCorePubsub_topics_exact_iff
    (ht : t ≠ CString.empty)
    (hsub : Subscribed ctx s subscriber) :
    ExactDelivery ctx origin t data s subscriber ↔ TopicFits s t origin subscriber := by
  cases subscriber with
  | inProcess sub =>
      rw [exactDelivery_iff fun bytes => receives_inProcess_iff origin ht hsub]
      cases origin with
      | inProcess => simp [Origin.topic, TopicFits]
      | remote peer => exact cut_topic_exact_iff
  | remote addr =>
      rw [exactDelivery_iff fun bytes => receives_remote_iff origin ht hsub]
      cases origin with
      | inProcess => simp [Origin.topic, TopicFits]
      | remote peer =>
          have hlt : (t.take 63).length < topicMax :=
            Nat.lt_succ_of_le (t.length_take_le 63)
          simp only [Origin.topic, hlt, and_true]
          exact cut_topic_exact_iff

/-- A client that has subscribed to the metrics gets them. -/
theorem metrics_delivered_to_client :
    ExactDelivery
      (ipcReceive emptyBroker [7] (nvPubsubFillPacket .sub (lit "nv/metrics") [])).1 .inProcess
      (lit "nv/metrics") [1, 2, 3] (lit "nv/metrics") (.remote [7]) :=
  (nvCorePubsub_topics_exact_iff (by decide)
    (subscribed_of_client_subscribe emptyBroker rfl [7] (if_neg (by decide)))).mpr fun _ => by decide

def longTopic : CString where
  bytes := List.replicate 64 97
  nulFree := by decide

/-- A subscription in the process to the long topic. -/
def longSub : Sub := ⟨2, longTopic, true, 0⟩

/-- A subscription in the process to its first 63 bytes. -/
def cutSub : Sub := ⟨1, longTopic.take 63, true, 0⟩

/-- A message on the long topic from another process reaches the other subscriber only. -/
theorem long_topic_misdelivered :
    (publishFrom { emptyBroker with subs := [longSub, cutSub] } (.remote [7]) longTopic [1]).calls =
        [⟨cutSub, longTopic.take 63, [1]⟩] ∧
      ¬ ExactDelivery { emptyBroker with subs := [longSub, cutSub] } (.remote [7]) longTopic [1]
        longTopic (.inProcess longSub) := by
  have hcalls : (publishFrom { emptyBroker with subs := [longSub, cutSub] } (.remote [7]) longTopic
      [1]).calls = [⟨cutSub, longTopic.take 63, [1]⟩] := by
    decide +kernel
  refine ⟨hcalls, fun h => ?_⟩
  obtain ⟨bytes, call, hmem, hsub, -⟩ := h.delivered.mpr rfl
  rw [hcalls, List.mem_singleton] at hmem
  subst hmem
  exact absurd hsub (by decide)

end Exact

end Libnv.Bus
