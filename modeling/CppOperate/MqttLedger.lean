import CppOperate.CLoops
import CppOperate.Ledgers
import CppOperate.MqttCalls
import Mathlib

/-! What the calls of the client do to the list of acknowledgements it waits for: a ledger
with the packet type and the packet id as its key, whose entries the client counts. -/
namespace CppOperate.Mqtt
open ByteMemory CLoops CNumbers CStrings Ledgers

/-- The two things `mqtt_ack_list_node_is_exist` compares. -/
def AckHandlers.key (a : AckHandlers) : ℕ × UInt16 := (a.type,a.packetId)

abbrev AckMove := Move AckHandlers (ℕ × UInt16)

/-- The acknowledgements the client itself waits for carry an id it has given out. -/
def AckHandlers.Awaited (a : AckHandlers) : Prop :=
  a.type = MsgType.puback.code ∨ a.type = MsgType.pubrec.code ∨ a.type = MsgType.suback.code ∨
    a.type = MsgType.unsuback.code

def AckHandlers.Answered (a : AckHandlers) : Prop :=
  a.type = MsgType.pubrel.code ∨ a.type = MsgType.pubcomp.code

/-- The range of packet ids that are given out. -/
def GivenId (id : UInt16) : Prop := 1 ≤ id.toNat ∧ id.toNat ≤ mqttMaxPacketId.toNat

/-- No two ack handlers are for the same acknowledgement, and the counter is their
number. -/
structure Client.Kept (c : Client) : Prop where
  distinct : Distinct AckHandlers.key c.ackHandlerList
  number : c.ackHandlerNumber = c.ackHandlerList.length
  packetId : GivenId c.packetId
  ids : ∀ a ∈ c.ackHandlerList, (a.Awaited ∧ GivenId a.packetId) ∨ a.Answered

theorem Client.Kept.length_lt {c : Client} (h : c.Kept) : c.ackHandlerList.length < 2^20 := by
  have hsmall (n : UInt16) : n ∈ (Finset.range 65536).image UInt16.ofNat := by
    apply Finset.mem_image.mpr
    exact ⟨n.toNat, Finset.mem_range.mpr n.toNat_lt, UInt16.ofNat_toNat⟩
  have hle := h.distinct.length_le AckHandlers.key
    (Finset.range 12 ×ˢ (Finset.range 65536).image UInt16.ofNat) (by
      intro a ha
      apply Finset.mem_product.mpr
      refine ⟨Finset.mem_range.mpr ?_, hsmall _⟩
      rcases h.ids a ha with ⟨ht,-⟩ | ht
      · rcases ht with ht | ht | ht | ht <;> (change a.type < 12; rw [ht]; decide)
      · rcases ht with ht | ht <;> (change a.type < 12; rw [ht]; decide))
  rw [Finset.card_product, Finset.card_range] at hle
  have himage := Finset.card_image_le (s := Finset.range 65536) (f := UInt16.ofNat)
  rw [Finset.card_range] at himage
  omega

/-- What a call does to the ledger, move by move, and that it keeps it. -/
structure Acts (legal : AckMove → Prop) (c c' : Client) : Prop where
  moves : ∃ ms, (∀ m ∈ ms, legal m) ∧ c'.ackHandlerList = play AckHandlers.key ms c.ackHandlerList
  kept : c.Kept → c'.Kept

theorem Acts.refl (legal : AckMove → Prop) (c : Client) : Acts legal c c :=
  ⟨⟨[], fun _ h => absurd h List.not_mem_nil, rfl⟩, id⟩

theorem Acts.trans {legal : AckMove → Prop} {c d e : Client} (h : Acts legal c d)
    (h' : Acts legal d e) : Acts legal c e := by
  obtain ⟨ms,hms,hd⟩ := h.moves
  obtain ⟨ns,hns,he⟩ := h'.moves
  refine ⟨⟨ms ++ ns, ?_, ?_⟩, fun hc => h'.kept (h.kept hc)⟩
  · intro m hm
    rcases List.mem_append.mp hm with hm | hm
    · exact hms m hm
    · exact hns m hm
  · rw [play_append, ← hd, he]

theorem Acts.of_same {legal : AckMove → Prop} {c d : Client}
    (hlist : d.ackHandlerList = c.ackHandlerList)
    (hnumber : d.ackHandlerNumber = c.ackHandlerNumber) (hid : d.packetId = c.packetId) :
    Acts legal c d := by
  refine ⟨⟨[], fun _ h => absurd h List.not_mem_nil, hlist⟩, fun hc => ⟨?_, ?_, ?_, ?_⟩⟩
  · exact hlist ▸ hc.distinct
  · rw [hnumber, hlist]
    exact hc.number
  · exact hid ▸ hc.packetId
  · exact hlist ▸ hc.ids

theorem Acts.one {legal : AckMove → Prop} {c d : Client} (m : AckMove) (hm : legal m)
    (hlist : d.ackHandlerList = m.apply AckHandlers.key c.ackHandlerList)
    (hkept : c.Kept → d.Kept) : Acts legal c d :=
  ⟨⟨[m], fun _ h => List.mem_singleton.mp h ▸ hm, hlist⟩, hkept⟩

/-- Taking entries off. -/
theorem Client.Kept.filter {c d : Client} (h : c.Kept) (keep : AckHandlers → Bool)
    (hlist : d.ackHandlerList = c.ackHandlerList.filter keep)
    (hnumber : d.ackHandlerNumber = d.ackHandlerList.length)
    (hid : d.packetId = c.packetId) : d.Kept := by
  refine ⟨hlist ▸ h.distinct.filter _ keep, hnumber, hid ▸ h.packetId, fun a ha => ?_⟩
  rw [hlist] at ha
  exact h.ids a (List.mem_filter.mp ha).1

section Calls
variable {legal : AckMove → Prop} {c : Client} {around : Around}

theorem getNextPacketId_acts : Acts legal c (getNextPacketId c) := by
  refine ⟨⟨[], fun _ h => absurd h List.not_mem_nil, rfl⟩, fun hc => ⟨hc.distinct, hc.number, ?_, hc.ids⟩⟩
  obtain ⟨hlow,hhigh⟩ := hc.packetId
  unfold getNextPacketId GivenId
  by_cases hmax : c.packetId = mqttMaxPacketId
  · simp only [hmax, if_true]
    decide
  · simp only [hmax, if_false]
    have hne : c.packetId.toNat ≠ mqttMaxPacketId.toNat := fun h => hmax (UInt16.toNat_inj.mp h)
    have hval : mqttMaxPacketId.toNat = 65534 := by decide
    rw [UInt16.toNat_add]
    simp only [UInt16.reduceToNat]
    omega

theorem ackListNodeIsExist_iff (type : ℕ) (packetId : UInt16) :
    ackListNodeIsExist c type packetId = true ↔
      (type,packetId) ∈ c.ackHandlerList.map AckHandlers.key := by
  simp only [ackListNodeIsExist, List.any_eq_true, decide_eq_true_iff, List.mem_map, AckHandlers.key,
    Prod.mk.injEq]
  constructor
  · rintro ⟨a,ha,hid,ht⟩
    exact ⟨a, ha, ht.symm, hid.symm⟩
  · rintro ⟨a,ha,ht,hid⟩
    exact ⟨a, ha, hid.symm, ht.symm⟩

/-- How `mqtt_ack_list_record` has gone. -/
inductive Recorded (c : Client) (around : Around) (type : MsgType) (id : UInt16) (len : ℤ)
    (handler : Option ℕ) : Client → ℤ → Prop
  | isExist (hmem : (type.code,id) ∈ c.ackHandlerList.map AckHandlers.key) :
      Recorded c around type id len handler c mqttAckNodeIsExistError
  | noMemory (hmem : (type.code,id) ∉ c.ackHandlerList.map AckHandlers.key)
      (hmemory : around.ackMemory = false) :
      Recorded c around type id len handler c mqttMemNotEnoughError
  | added (hmem : (type.code,id) ∉ c.ackHandlerList.map AckHandlers.key)
      (hmemory : around.ackMemory = true) (payload : List UInt8)
      (hpayload : readAt c.writeBuf 0 (len%2^16).toNat = some payload) :
      Recorded c around type id len handler (addAckHandler c ⟨type.code, id, payload, handler⟩)
        mqttSuccessError

theorem ackListRecord_ok {type : MsgType} {id : UInt16} {len : ℤ} {handler : Option ℕ}
    {c' : Client} {rc : ℤ} (h : ackListRecord c around type id len handler = .ok (c',rc)) :
    Recorded c around type id len handler c' rc := by
  unfold ackListRecord at h
  by_cases hexist : ackListNodeIsExist c type.code id = true
  · rw [if_pos hexist] at h
    obtain ⟨rfl,rfl⟩ := Prod.mk.inj (Except.ok.inj h)
    exact .isExist ((ackListNodeIsExist_iff _ _).mp hexist)
  · rw [if_neg hexist] at h
    rw [ackListNodeIsExist_iff] at hexist
    obtain ⟨a,ha,h⟩ := (bind_eq_ok_iff _ _ _).mp h
    unfold ackHandlerCreate at ha
    by_cases hmemory : around.ackMemory = true
    · rw [if_pos hmemory] at ha
      obtain ⟨payload,hpayload,ha⟩ := (bind_eq_ok_iff _ _ _).mp ha
      obtain rfl := Except.ok.inj ha
      obtain ⟨rfl,rfl⟩ := Prod.mk.inj (Except.ok.inj h)
      exact .added hexist hmemory payload ((inside_eq_ok_iff _ _).mp hpayload)
    · rw [if_neg hmemory] at ha
      obtain rfl := Except.ok.inj ha
      obtain ⟨rfl,rfl⟩ := Prod.mk.inj (Except.ok.inj h)
      exact .noMemory hexist (by simpa using hmemory)

/-- Recording is a move of the ledger, and the counter does not wrap. -/
theorem Recorded.acts {type : MsgType} {id : UInt16} {len : ℤ} {handler : Option ℕ}
    {c' : Client} {rc : ℤ} (h : Recorded c around type id len handler c' rc)
    (hlegal : ∀ payload, legal (.record ⟨type.code, id, payload, handler⟩))
    (hid : c.Kept → (AckHandlers.Awaited ⟨type.code, id, [], handler⟩ ∧ GivenId id) ∨
      AckHandlers.Answered ⟨type.code, id, [], handler⟩) : Acts legal c c' := by
  cases h with
  | isExist => exact Acts.refl _ _
  | noMemory => exact Acts.refl _ _
  | added hmem hmemory payload hpayload =>
    have hlist : c.ackHandlerList ++ [⟨type.code, id, payload, handler⟩] =
        (Move.record ⟨type.code, id, payload, handler⟩).apply AckHandlers.key c.ackHandlerList :=
      (if_neg hmem).symm
    apply Acts.one _ (hlegal payload) hlist
    intro hc
    have hlt := hc.length_lt
    refine ⟨?_, ?_, hc.packetId, ?_⟩
    · change Distinct _ (c.ackHandlerList ++ [⟨type.code, id, payload, handler⟩])
      rw [hlist]
      exact hc.distinct.apply _ _
    · change (c.ackHandlerNumber+1)%2^24 = (c.ackHandlerList ++ [_]).length
      rw [hc.number, List.length_append, List.length_singleton]
      omega
    · intro a ha
      rcases List.mem_append.mp ha with ha | ha
      · exact hc.ids a ha
      · rw [List.mem_singleton.mp ha]
        exact hid hc

theorem ackListUnrecordLoop_spec (type : ℕ) (packetId : UInt16) (as : List AckHandlers) (number : ℕ)
    (handler : Option (Option ℕ)) :
    (ackListUnrecordLoop type packetId as number handler).1 =
      as.filter (fun a => a.key ≠ (type,packetId)) ∧
    (ackListUnrecordLoop type packetId as number handler).2.1 =
      number-(as.length-(as.filter fun a => a.key ≠ (type,packetId)).length) := by
  induction as generalizing number handler with
  | nil => exact ⟨rfl,rfl⟩
  | cons a as ih =>
    by_cases hkeep : packetId ≠ a.packetId ∨ type ≠ a.type
    · have hkey : a.key ≠ (type,packetId) := by
        intro h
        obtain ⟨rfl,rfl⟩ := Prod.mk.inj h
        rcases hkeep with hkeep | hkeep <;> exact hkeep rfl
      obtain ⟨hlist,hnumber⟩ := ih number handler
      rw [ackListUnrecordLoop, if_pos hkeep, List.filter_cons, if_pos (decide_eq_true hkey)]
      refine ⟨congrArg (List.cons a) hlist, hnumber.trans ?_⟩
      rw [List.length_cons, List.length_cons, Nat.add_sub_add_right]
    · have hkey : a.key = (type,packetId) := by
        rw [not_or, not_not, not_not] at hkeep
        exact Prod.ext hkeep.2.symm hkeep.1.symm
      obtain ⟨hlist,hnumber⟩ := ih (number-1) (some a.handler)
      have hle := List.length_filter_le (fun a => decide (a.key ≠ (type,packetId))) as
      rw [ackListUnrecordLoop, if_neg hkeep, List.filter_cons,
        if_neg (by simpa using hkey)]
      refine ⟨hlist, hnumber.trans ?_⟩
      rw [List.length_cons]
      omega

theorem ackListUnrecord_acts (type : ℕ) (packetId : UInt16) (hlegal : legal (.settle (type,packetId))) :
    Acts legal c (ackListUnrecord c type packetId).1 := by
  obtain ⟨hlist,hnumber⟩ :=
    ackListUnrecordLoop_spec type packetId c.ackHandlerList c.ackHandlerNumber none
  apply Acts.one _ hlegal hlist
  intro hc
  refine hc.filter (fun a => decide (a.key ≠ (type,packetId))) hlist ?_ rfl
  change (ackListUnrecordLoop _ _ _ _ _).2.1 = (ackListUnrecordLoop _ _ _ _ _).1.length
  have hle := List.length_filter_le (fun a => decide (a.key ≠ (type,packetId))) c.ackHandlerList
  rw [hlist, hnumber, hc.number]
  omega

/-- Handlers of subscriptions come and go without the ledger. -/
theorem msgHandlerDestory_acts {p : ℕ} {c' : Client} (h : msgHandlerDestory c p = .ok c') :
    Acts legal c c' := by
  unfold msgHandlerDestory at h
  cases hp : c.heap p with
  | none =>
    rw [hp] at h
    contradiction
  | some m =>
    rw [hp] at h
    obtain rfl := Except.ok.inj h
    exact Acts.of_same rfl rfl rfl

theorem msgHandlersInstall_acts {p : ℕ} {c' : Client} {rc : ℤ}
    (h : msgHandlersInstall c p = .ok (c',rc)) : Acts legal c c' := by
  unfold msgHandlersInstall at h
  cases hp : c.heap p with
  | none =>
    rw [hp] at h
    contradiction
  | some m =>
    rw [hp] at h
    obtain ⟨b,hb,h⟩ := (bind_eq_ok_iff _ _ _).mp h
    by_cases htrue : b = true
    · rw [if_pos htrue] at h
      obtain ⟨d,hd,h⟩ := (bind_eq_ok_iff _ _ _).mp h
      obtain ⟨rfl,-⟩ := Prod.mk.inj (Except.ok.inj h)
      exact msgHandlerDestory_acts hd
    · rw [if_neg htrue] at h
      obtain ⟨rfl,-⟩ := Prod.mk.inj (Except.ok.inj h)
      exact Acts.of_same rfl rfl rfl

theorem destroyHandlers_acts (as : List AckHandlers) {c c' : Client}
    (h : destroyHandlers c as = .ok c') :
    c'.ackHandlerList = c.ackHandlerList ∧ c'.ackHandlerNumber = c.ackHandlerNumber ∧
      c'.packetId = c.packetId := by
  induction as generalizing c with
  | nil =>
    obtain rfl := Except.ok.inj h
    exact ⟨rfl,rfl,rfl⟩
  | cons a as ih =>
    cases hp : a.handler with
    | none =>
      rw [destroyHandlers, hp] at h
      exact ih h
    | some p =>
      rw [destroyHandlers, hp] at h
      obtain ⟨d,hd,h⟩ := (bind_eq_ok_iff _ _ _).mp h
      obtain ⟨h1,h2,h3⟩ := ih h
      unfold msgHandlerDestory at hd
      cases hm : c.heap p with
      | none =>
        rw [hm] at hd
        contradiction
      | some m =>
        rw [hm] at hd
        obtain rfl := Except.ok.inj hd
        exact ⟨h1,h2,h3⟩

theorem withBuf_acts (buf : List UInt8) : Acts legal c (c.withBuf buf) := Acts.of_same rfl rfl rfl

/-- What the client waits for itself is recorded under the id it gave out last. -/
theorem Recorded.acts_awaited {type : MsgType} {len : ℤ} {handler : Option ℕ} {c' : Client} {rc : ℤ}
    (h : Recorded c around type c.packetId len handler c' rc)
    (hlegal : ∀ a, legal (.record a))
    (htype : type = .puback ∨ type = .pubrec ∨ type = .suback ∨ type = .unsuback) :
    Acts legal c c' := by
  apply h.acts (fun _ => hlegal _)
  intro hkept
  refine Or.inl ⟨?_, hkept.packetId⟩
  rcases htype with rfl | rfl | rfl | rfl
  · exact .inl rfl
  · exact .inr (.inl rfl)
  · exact .inr (.inr (.inl rfl))
  · exact .inr (.inr (.inr rfl))

theorem Recorded.acts_answered {type : MsgType} {id : UInt16} {len : ℤ} {handler : Option ℕ}
    {c' : Client} {rc : ℤ} (h : Recorded c around type id len handler c' rc)
    (hlegal : ∀ a, legal (.record a)) (htype : type = .pubrel ∨ type = .pubcomp) :
    Acts legal c c' := by
  apply h.acts (fun _ => hlegal _)
  intro _
  rcases htype with rfl | rfl
  · exact .inr (.inl rfl)
  · exact .inr (.inr rfl)

/-- How `mqtt_subscribe` has gone. -/
inductive Subscribed (c : Client) (around : Around) (h : MessageHandlers) : Returned → Prop
  | notConnected (hstate : c.clientState ≠ .connected) :
      Subscribed c around h ⟨c, mqttNotConnectError, []⟩
  | failed (buf : List UInt8) (rc : ℤ) (out : List Output) :
      Subscribed c around h ⟨(getNextPacketId c).withBuf buf, rc, out⟩
  | sent (buf : List UInt8) (len : ℤ) (out : List Output) (c' : Client) (rc : ℤ)
      (hrec : Recorded (((getNextPacketId c).withBuf buf).withHandler h) around .suback
        (getNextPacketId c).packetId len (some c.heapEnd) c' rc) :
      Subscribed c around h ⟨c',rc,out⟩

theorem subscribe_ok {topicFilter : CString} {qos : ℤ} {handler : Option MessageHandler}
    {r : Returned} (h : mqttSubscribe c around topicFilter qos handler = .ok r) :
    Subscribed c around ⟨qos, topicFilter, handler.getD .defaultMsgHandler⟩ r := by
  unfold mqttSubscribe at h
  by_cases hstate : c.clientState ≠ .connected
  · rw [if_pos hstate] at h
    obtain rfl := Except.ok.inj h
    exact .notConnected hstate
  · rw [if_neg hstate] at h
    obtain ⟨⟨len,buf⟩,-,h⟩ := (bind_eq_ok_iff _ _ _).mp h
    dsimp only at h
    by_cases hlen : len ≤ 0
    · rw [if_pos hlen] at h
      obtain rfl := Except.ok.inj h
      exact .failed buf _ _
    · rw [if_neg hlen] at h
      by_cases hsends : around.sends = false
      · rw [if_pos hsends] at h
        obtain rfl := Except.ok.inj h
        exact .failed buf _ _
      · rw [if_neg hsends, msgHandlerCreate] at h
        by_cases hmemory : around.handlerMemory = true
        · rw [if_pos hmemory] at h
          obtain ⟨⟨d,rc⟩,hd,h⟩ := (bind_eq_ok_iff _ _ _).mp h
          obtain rfl := Except.ok.inj h
          exact .sent buf len _ d rc (ackListRecord_ok hd)
        · rw [if_neg hmemory] at h
          obtain rfl := Except.ok.inj h
          exact .failed buf _ _

theorem Subscribed.acts (hlegal : ∀ a, legal (.record a)) {h : MessageHandlers} {r : Returned}
    (hr : Subscribed c around h r) : Acts legal c r.client := by
  cases hr with
  | notConnected => exact Acts.refl _ _
  | failed buf => exact getNextPacketId_acts.trans (withBuf_acts buf)
  | sent buf len out c' rc hrec =>
    have hcreate : Acts legal ((getNextPacketId c).withBuf buf)
        (((getNextPacketId c).withBuf buf).withHandler h) := Acts.of_same rfl rfl rfl
    apply ((getNextPacketId_acts.trans (withBuf_acts buf)).trans hcreate).trans
    exact hrec.acts_awaited hlegal (.inr (.inr (.inl rfl)))

/-- How `mqtt_unsubscribe` has gone. -/
inductive Unsubscribed (c : Client) (around : Around) (topicFilter : CString) : Returned → Prop
  | notConnected (hstate : c.clientState ≠ .connected) :
      Unsubscribed c around topicFilter ⟨c, mqttNotConnectError, []⟩
  | failed (buf : List UInt8) (rc : ℤ) (out : List Output) :
      Unsubscribed c around topicFilter ⟨(getNextPacketId c).withBuf buf, rc, out⟩
  | sent (buf : List UInt8) (len : ℤ) (out : List Output) (p : ℕ) (c' : Client) (rc : ℤ)
      (hp : getMsgHandler c (MqttString.ofC topicFilter) = .ok (some p))
      (hrec : Recorded ((getNextPacketId c).withBuf buf) around .unsuback
        (getNextPacketId c).packetId len (some p) c' rc) :
      Unsubscribed c around topicFilter ⟨c',rc,out⟩

theorem unsubscribe_ok {topicFilter : CString} {r : Returned}
    (h : mqttUnsubscribe c around topicFilter = .ok r) : Unsubscribed c around topicFilter r := by
  unfold mqttUnsubscribe at h
  by_cases hstate : c.clientState ≠ .connected
  · rw [if_pos hstate] at h
    obtain rfl := Except.ok.inj h
    exact .notConnected hstate
  · rw [if_neg hstate] at h
    obtain ⟨⟨len,buf⟩,-,h⟩ := (bind_eq_ok_iff _ _ _).mp h
    dsimp only at h
    by_cases hlen : len ≤ 0
    · rw [if_pos hlen] at h
      obtain rfl := Except.ok.inj h
      exact .failed buf _ _
    · rw [if_neg hlen] at h
      by_cases hsends : around.sends = false
      · rw [if_pos hsends] at h
        obtain rfl := Except.ok.inj h
        exact .failed buf _ _
      · rw [if_neg hsends] at h
        obtain ⟨p,hp,h⟩ := (bind_eq_ok_iff _ _ _).mp h
        cases p with
        | none =>
          obtain rfl := Except.ok.inj h
          exact .failed buf _ _
        | some p =>
          obtain ⟨⟨d,rc⟩,hd,h⟩ := (bind_eq_ok_iff _ _ _).mp h
          obtain rfl := Except.ok.inj h
          exact .sent buf len _ p d rc hp (ackListRecord_ok hd)

theorem Unsubscribed.acts (hlegal : ∀ a, legal (.record a)) {topicFilter : CString} {r : Returned}
    (hr : Unsubscribed c around topicFilter r) : Acts legal c r.client := by
  cases hr with
  | notConnected => exact Acts.refl _ _
  | failed buf => exact getNextPacketId_acts.trans (withBuf_acts buf)
  | sent buf len out p c' rc hp hrec =>
    apply (getNextPacketId_acts.trans (withBuf_acts buf)).trans
    exact hrec.acts_awaited hlegal (.inr (.inr (.inr rfl)))

theorem setPublishDup_ok {dup : UInt8} {c' : Client} {rc : ℤ}
    (h : setPublishDup c dup = .ok (c',rc)) : ∃ buf, c' = c.withBuf buf := by
  unfold setPublishDup at h
  obtain ⟨⟨byte,n⟩,-,h⟩ := (bind_eq_ok_iff _ _ _).mp h
  dsimp only at h
  split_ifs at h
  · obtain ⟨rfl,-⟩ := Prod.mk.inj (Except.ok.inj h)
    exact ⟨c.writeBuf,rfl⟩
  · obtain ⟨ptr,-,h⟩ := (bind_eq_ok_iff _ _ _).mp h
    obtain ⟨rfl,-⟩ := Prod.mk.inj (Except.ok.inj h)
    exact ⟨ptr.mem,rfl⟩

/-- What a PUBLISH may leave behind: the packet in the write buffer, and that its answer is
waited for. -/
inductive Noted (e : Client) (around : Around) : Client → Prop
  | plain (buf : List UInt8) : Noted e around (e.withBuf buf)
  | recorded (buf : List UInt8) (type : MsgType) (htype : type = .puback ∨ type = .pubrec) (len : ℤ)
      (c' : Client) (rc : ℤ)
      (hrec : Recorded (e.withBuf buf) around type e.packetId len none c' rc) : Noted e around c'

theorem recordPublish_noted {e : Client} {buf : List UInt8} {qos : ℤ} {id : UInt16} {len : ℤ}
    {c' : Client} {rc : ℤ} (hid : qos ≠ 0 → id = e.packetId)
    (h : recordPublish (e.withBuf buf) around qos id len = .ok (c',rc)) : Noted e around c' := by
  unfold recordPublish at h
  by_cases hqos : qos = 0
  · rw [if_pos hqos] at h
    obtain ⟨rfl,-⟩ := Prod.mk.inj (Except.ok.inj h)
    exact .plain buf
  · rw [if_neg hqos] at h
    obtain rfl := hid hqos
    obtain ⟨⟨d,rc'⟩,hd,h⟩ := (bind_eq_ok_iff _ _ _).mp h
    obtain ⟨buf',rfl⟩ := setPublishDup_ok hd
    dsimp only at h
    split_ifs at h
    · exact .recorded buf' .puback (.inl rfl) len c' rc (ackListRecord_ok h)
    · exact .recorded buf' .pubrec (.inr rfl) len c' rc (ackListRecord_ok h)
    · obtain ⟨rfl,-⟩ := Prod.mk.inj (Except.ok.inj h)
      exact .plain buf'

theorem publishWith_noted {e : Client} {topicFilter : CString} {msg : MqttMessage} {id : UInt16}
    {payloadlen : ℕ} {r : Returned} (hid : msg.qos ≠ 0 → id = e.packetId)
    (h : publishWith e around topicFilter msg id payloadlen = .ok r) : Noted e around r.client := by
  unfold publishWith at h
  obtain ⟨⟨len,buf⟩,-,h⟩ := (bind_eq_ok_iff _ _ _).mp h
  dsimp only at h
  by_cases hlen : len ≤ 0
  · rw [if_pos hlen] at h
    obtain rfl := Except.ok.inj h
    exact .plain buf
  · rw [if_neg hlen] at h
    by_cases hsends : around.sends = false
    · rw [if_pos hsends] at h
      obtain rfl := Except.ok.inj h
      exact .plain buf
    · rw [if_neg hsends] at h
      obtain ⟨⟨d,rc⟩,hd,h⟩ := (bind_eq_ok_iff _ _ _).mp h
      obtain rfl := Except.ok.inj h
      exact recordPublish_noted hid hd

/-- How `mqtt_publish` has gone: its packet has a new id or needs none, and the client may
have been disconnected. -/
theorem publish_ok {topicFilter : CString} {msg : MqttMessage} {r : Returned}
    (h : mqttPublish c around topicFilter msg = .ok r) :
    ∃ e d, (e = c ∨ e = getNextPacketId c) ∧ Noted e around d ∧
      (r.client = d ∨ r.client = { d with clientState := .disconnected }) := by
  have hplain : Noted c around c := .plain c.writeBuf
  unfold mqttPublish at h
  by_cases hstate : c.clientState ≠ .connected
  · rw [if_pos hstate] at h
    obtain rfl := Except.ok.inj h
    exact ⟨c, c, .inl rfl, hplain, .inl rfl⟩
  · rw [if_neg hstate] at h
    obtain ⟨payloadlen,-,h⟩ := (bind_eq_ok_iff _ _ _).mp h
    by_cases hlong : c.writeBuf.length < payloadlen
    · rw [if_pos hlong] at h
      obtain rfl := Except.ok.inj h
      exact ⟨c, c, .inl rfl, hplain, .inl rfl⟩
    · rw [if_neg hlong] at h
      obtain ⟨s,hs,h⟩ := (bind_eq_ok_iff _ _ _).mp h
      have hnoted : ∃ e, (e = c ∨ e = getNextPacketId c) ∧ Noted e around s.client := by
        unfold publishLocked at hs
        split_ifs at hs with hqos hmax
        · exact ⟨c, .inl rfl, publishWith_noted (fun hne => absurd hqos hne) hs⟩
        · obtain rfl := Except.ok.inj hs
          exact ⟨c, .inl rfl, hplain⟩
        · exact ⟨getNextPacketId c, .inr rfl, publishWith_noted (fun _ => rfl) hs⟩
      obtain ⟨e,he,hnoted⟩ := hnoted
      refine ⟨e, s.client, he, hnoted, ?_⟩
      split_ifs at h
      · obtain rfl := Except.ok.inj h
        exact .inr rfl
      · obtain rfl := Except.ok.inj h
        exact .inl rfl

theorem publish_acts (hlegal : ∀ a, legal (.record a)) {topicFilter : CString}
    {msg : MqttMessage} {r : Returned}
    (h : mqttPublish c around topicFilter msg = .ok r) : Acts legal c r.client := by
  obtain ⟨e,d,he,hd,hr⟩ := publish_ok h
  have hnext : Acts legal c e := by
    rcases he with rfl | rfl
    · exact Acts.refl _ _
    · exact getNextPacketId_acts
  have hnoted : Acts legal e d := by
    cases hd with
    | plain buf => exact withBuf_acts buf
    | recorded buf type htype len c' rc hrec =>
      apply (withBuf_acts buf).trans
      apply hrec.acts_awaited hlegal
      exact htype.imp_right .inl
  rcases hr with hr | hr
  · rw [hr]
    exact hnext.trans hnoted
  · rw [hr]
    exact (hnext.trans hnoted).trans (Acts.of_same rfl rfl rfl)

end Calls

end CppOperate.Mqtt
