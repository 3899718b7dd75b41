import CppOperate.MqttLedger
import Mathlib

/-! How the client handles the packets it has read, and what each of them may do to the
list of acknowledgements. -/
namespace CppOperate.Mqtt
open ByteMemory CLoops CNumbers CStrings Ledgers

/-- The key with which `mqtt_ack_list_unrecord` is called for a packet. -/
def ackOf (signed : Bool) (around : Around) (buf : List UInt8) : Option (ℕ × UInt16) :=
  let type := packetTypeOf (some buf)
  if type = MsgType.puback.code ∨ type = MsgType.pubcomp.code then
    (deserializeAck ⟨0, 0, around.unassigned⟩ buf).map fun r => (r.2.packettype, r.2.packetid)
  else if type = MsgType.pubrec.code ∨ type = MsgType.pubrel.code then
    (deserializeAck ⟨0, 0, around.unassigned⟩ buf).bind fun r =>
      if r.1 = 1 then some (r.2.packettype, r.2.packetid) else none
  else if type = MsgType.suback.code then
    (deserializeSuback signed 1 ⟨around.unassigned, 0, [0]⟩ buf).bind fun r =>
      if r.1 = 1 then some (MsgType.suback.code, r.2.packetid) else none
  else if type = MsgType.unsuback.code then
    (deserializeUnsuback 0 buf).bind fun r =>
      if r.1 = 1 then some (MsgType.unsuback.code, r.2) else none
  else none

/-- The call answers the ack handlers with this key. -/
def Call.Settles (signed : Bool) (c : Client) (k : ℕ × UInt16) : Call → Prop
  | .packet around received => c.clientState = .connected ∧
      ∃ buf, received = some buf ∧ ackOf signed around buf = some k
  | _ => False

/-- The call gives the ack handler up. -/
def Call.Drops (c : Client) (a : AckHandlers) : Call → Prop
  | .scan _ _ => ¬ Resent a.type
  | .reconnect _ _ _ => ¬ Resent a.type
  | .cleanSession => c.clientState = .cleanSession
  | _ => False

/-- What a call may do to the ledger. -/
def Call.Legal (signed : Bool) (c : Client) (call : Call) : AckMove → Prop
  | .record _ => True
  | .settle k => call.Settles signed c k
  | .retain keep => ∀ a, keep a = false → call.Drops c a

theorem mqttIsConnected_iff (c : Client) :
    mqttIsConnected c = mqttSuccessError ↔ c.clientState = .connected := by
  unfold mqttIsConnected
  cases c.clientState <;> decide

section Packets
variable {legal : AckMove → Prop} {c : Client} {around : Around} {signed : Bool} {buf : List UInt8}

/-- How the answer to a PUBLISH or a PUBREL of the client is handled. -/
theorem puback_acts {r : Returned}
    (htype : packetTypeOf (some buf) = MsgType.puback.code ∨
      packetTypeOf (some buf) = MsgType.pubcomp.code)
    (hsettle : ∀ k, c.clientState = .connected → ackOf signed around buf = some k → legal (.settle k))
    (h : pubackAndPubcompPacketHandle c around buf = .ok r) : Acts legal c r.client := by
  unfold pubackAndPubcompPacketHandle at h
  by_cases hconn : mqttIsConnected c ≠ mqttSuccessError
  · rw [if_pos hconn] at h
    obtain rfl := Except.ok.inj h
    exact Acts.refl _ _
  · rw [if_neg hconn] at h
    rw [not_not, mqttIsConnected_iff] at hconn
    obtain ⟨⟨ok,ack⟩,hack,h⟩ := (bind_eq_ok_iff _ _ _).mp h
    obtain rfl := Except.ok.inj h
    apply ackListUnrecord_acts
    apply hsettle _ hconn
    rw [ackOf, if_pos htype, (inside_eq_ok_iff _ _).mp hack]
    rfl

/-- How `mqtt_suback_packet_handle` has gone. -/
inductive SubackHandled (signed : Bool) (c : Client) (around : Around) (buf : List UInt8) :
    Returned → Prop
  | refused (rc : ℤ) : SubackHandled signed c around buf ⟨c, rc, []⟩
  | unknown (id : UInt16) (hack : c.clientState = .connected ∧
        ackOf signed around buf = some (MsgType.suback.code,id))
      (hnone : (ackListUnrecord c MsgType.suback.code id).2.getD none = none) :
      SubackHandled signed c around buf
        ⟨(ackListUnrecord c MsgType.suback.code id).1, mqttMemNotEnoughError, []⟩
  | nack (id : UInt16) (p : ℕ) (d : Client) (hack : c.clientState = .connected ∧
        ackOf signed around buf = some (MsgType.suback.code,id))
      (hsome : (ackListUnrecord c MsgType.suback.code id).2.getD none = some p)
      (hdestroy : msgHandlerDestory (ackListUnrecord c MsgType.suback.code id).1 p = .ok d) :
      SubackHandled signed c around buf ⟨d, mqttSubscribeNotAckError, []⟩
  | installed (id : UInt16) (p : ℕ) (d : Client) (rc : ℤ) (hack : c.clientState = .connected ∧
        ackOf signed around buf = some (MsgType.suback.code,id))
      (hsome : (ackListUnrecord c MsgType.suback.code id).2.getD none = some p)
      (hinstall : msgHandlersInstall (ackListUnrecord c MsgType.suback.code id).1 p = .ok (d,rc)) :
      SubackHandled signed c around buf ⟨d, rc, []⟩

theorem suback_ok {r : Returned} (htype : packetTypeOf (some buf) = MsgType.suback.code)
    (h : subackPacketHandle c around signed buf = .ok r) : SubackHandled signed c around buf r := by
  unfold subackPacketHandle at h
  by_cases hconn : mqttIsConnected c ≠ mqttSuccessError
  · rw [if_pos hconn] at h
    obtain rfl := Except.ok.inj h
    exact .refused _
  · rw [if_neg hconn] at h
    rw [not_not, mqttIsConnected_iff] at hconn
    obtain ⟨⟨ok,suback⟩,hsub,h⟩ := (bind_eq_ok_iff _ _ _).mp h
    dsimp only at h
    by_cases hok : ok ≠ 1
    · rw [if_pos hok] at h
      obtain rfl := Except.ok.inj h
      exact .refused _
    · rw [if_neg hok] at h
      rw [not_not] at hok
      have hack : c.clientState = .connected ∧
          ackOf signed around buf = some (MsgType.suback.code, suback.packetid) := by
        refine ⟨hconn, ?_⟩
        rw [ackOf, htype, if_neg (by decide), if_neg (by decide), if_pos rfl,
          (inside_eq_ok_iff _ _).mp hsub, Option.bind_some, if_pos hok]
      cases hhandler : (ackListUnrecord c MsgType.suback.code suback.packetid).2.getD none with
      | none =>
        simp only [hhandler] at h
        obtain rfl := Except.ok.inj h
        exact .unknown _ hack hhandler
      | some p =>
        simp only [hhandler] at h
        by_cases hnack : suback.grantedQoSs.headD 0 = 128
        · rw [if_pos (decide_eq_true hnack)] at h
          obtain ⟨d,hd,h⟩ := (bind_eq_ok_iff _ _ _).mp h
          obtain rfl := Except.ok.inj h
          exact .nack _ p d hack hhandler hd
        · rw [if_neg (by simpa using hnack)] at h
          obtain ⟨⟨d,rc⟩,hd,h⟩ := (bind_eq_ok_iff _ _ _).mp h
          obtain rfl := Except.ok.inj h
          exact .installed _ p d rc hack hhandler hd

theorem SubackHandled.acts {r : Returned}
    (hsettle : ∀ k, c.clientState = .connected → ackOf signed around buf = some k → legal (.settle k))
    (h : SubackHandled signed c around buf r) : Acts legal c r.client := by
  cases h with
  | refused => exact Acts.refl _ _
  | unknown id hack => exact ackListUnrecord_acts _ _ (hsettle _ hack.1 hack.2)
  | nack id p d hack hsome hdestroy =>
    exact (ackListUnrecord_acts _ _ (hsettle _ hack.1 hack.2)).trans (msgHandlerDestory_acts hdestroy)
  | installed id p d rc hack hsome hinstall =>
    exact (ackListUnrecord_acts _ _ (hsettle _ hack.1 hack.2)).trans (msgHandlersInstall_acts hinstall)

/-- How `mqtt_unsuback_packet_handle` has gone. -/
inductive UnsubackHandled (signed : Bool) (c : Client) (around : Around) (buf : List UInt8) :
    Returned → Prop
  | refused (rc : ℤ) : UnsubackHandled signed c around buf ⟨c, rc, []⟩
  | noHandler (id : UInt16) (hack : c.clientState = .connected ∧
        ackOf signed around buf = some (MsgType.unsuback.code,id))
      (hnone : (ackListUnrecord c MsgType.unsuback.code id).2 = some none) :
      UnsubackHandled signed c around buf
        ⟨(ackListUnrecord c MsgType.unsuback.code id).1, mqttMemNotEnoughError, []⟩
  | destroyed (id : UInt16) (p : ℕ) (d : Client) (hack : c.clientState = .connected ∧
        ackOf signed around buf = some (MsgType.unsuback.code,id))
      (hsome : (ackListUnrecord c MsgType.unsuback.code id).2 = some (some p))
      (hdestroy : msgHandlerDestory (ackListUnrecord c MsgType.unsuback.code id).1 p = .ok d) :
      UnsubackHandled signed c around buf ⟨d, mqttSuccessError, []⟩

theorem unsuback_ok {r : Returned} (htype : packetTypeOf (some buf) = MsgType.unsuback.code)
    (h : unsubackPacketHandle c buf = .ok r) : UnsubackHandled signed c around buf r := by
  unfold unsubackPacketHandle at h
  by_cases hconn : mqttIsConnected c ≠ mqttSuccessError
  · rw [if_pos hconn] at h
    obtain rfl := Except.ok.inj h
    exact .refused _
  · rw [if_neg hconn] at h
    rw [not_not, mqttIsConnected_iff] at hconn
    obtain ⟨⟨ok,id⟩,hun,h⟩ := (bind_eq_ok_iff _ _ _).mp h
    dsimp only at h
    by_cases hok : ok ≠ 1
    · rw [if_pos hok] at h
      obtain rfl := Except.ok.inj h
      exact .refused _
    · rw [if_neg hok] at h
      rw [not_not] at hok
      have hack : c.clientState = .connected ∧
          ackOf signed around buf = some (MsgType.unsuback.code, id) := by
        refine ⟨hconn, ?_⟩
        rw [ackOf, htype, if_neg (by decide), if_neg (by decide), if_neg (by decide), if_pos rfl,
          (inside_eq_ok_iff _ _).mp hun, Option.bind_some, if_pos hok]
      cases hhandler : (ackListUnrecord c MsgType.unsuback.code id).2 with
      | none =>
        simp only [hhandler] at h
        contradiction
      | some p =>
        cases p with
        | none =>
          simp only [hhandler] at h
          obtain rfl := Except.ok.inj h
          exact .noHandler _ hack hhandler
        | some p =>
          simp only [hhandler] at h
          obtain ⟨d,hd,h⟩ := (bind_eq_ok_iff _ _ _).mp h
          obtain rfl := Except.ok.inj h
          exact .destroyed _ p d hack hhandler hd

theorem UnsubackHandled.acts {r : Returned}
    (hsettle : ∀ k, c.clientState = .connected → ackOf signed around buf = some k → legal (.settle k))
    (h : UnsubackHandled signed c around buf r) : Acts legal c r.client := by
  cases h with
  | refused => exact Acts.refl _ _
  | noHandler id hack => exact ackListUnrecord_acts _ _ (hsettle _ hack.1 hack.2)
  | destroyed id p d hack hsome hdestroy =>
    exact (ackListUnrecord_acts _ _ (hsettle _ hack.1 hack.2)).trans (msgHandlerDestory_acts hdestroy)

/-- How a message that was answered, if it had to be, is passed on. -/
inductive PassedOn (c : Client) (around : Around) (topicName : MqttString) (message : MqttMessage)
    (len : ℤ) : Returned → Prop
  | plain (hqos : message.qos ≠ 2) (rc : ℤ) (out : List Output)
      (hdeliver : deliverMessage c topicName message = .ok (rc,out)) :
      PassedOn c around topicName message len ⟨c, mqttSuccessError, out⟩
  | again (hqos : message.qos = 2)
      (hmem : (MsgType.pubrel.code,message.id) ∈ c.ackHandlerList.map AckHandlers.key) :
      PassedOn c around topicName message len ⟨c, mqttAckNodeIsExistError, []⟩
  | first (hqos : message.qos = 2) (c' : Client) (rc rc' : ℤ) (out : List Output)
      (hmem : (MsgType.pubrel.code,message.id) ∉ c.ackHandlerList.map AckHandlers.key)
      (hrec : Recorded c around .pubrel message.id len none c' rc)
      (hdeliver : deliverMessage c' topicName message = .ok (rc',out)) :
      PassedOn c around topicName message len ⟨c',rc,out⟩

theorem publishReceived_ok {topicName : MqttString} {message : MqttMessage} {len : ℤ} {r : Returned}
    (h : publishReceived c around topicName message len = .ok r) :
    PassedOn c around topicName message len r := by
  unfold publishReceived at h
  by_cases hqos : message.qos ≠ 2
  · rw [if_pos hqos] at h
    obtain ⟨⟨rc,out⟩,hdeliver,h⟩ := (bind_eq_ok_iff _ _ _).mp h
    obtain rfl := Except.ok.inj h
    exact .plain hqos rc out hdeliver
  · rw [if_neg hqos] at h
    rw [not_not] at hqos
    obtain ⟨⟨d,rc⟩,hd,h⟩ := (bind_eq_ok_iff _ _ _).mp h
    have hrec := ackListRecord_ok hd
    cases hrec with
    | isExist hmem =>
      simp only [if_true] at h
      obtain rfl := Except.ok.inj h
      exact .again hqos hmem
    | noMemory hmem hmemory =>
      simp only [if_neg (show mqttMemNotEnoughError ≠ mqttAckNodeIsExistError by decide)] at h
      obtain ⟨⟨rc',out⟩,hdeliver,h⟩ := (bind_eq_ok_iff _ _ _).mp h
      obtain rfl := Except.ok.inj h
      exact .first hqos _ _ rc' out hmem (.noMemory hmem hmemory) hdeliver
    | added hmem hmemory payload hpayload =>
      simp only [if_neg (show mqttSuccessError ≠ mqttAckNodeIsExistError by decide)] at h
      obtain ⟨⟨rc',out⟩,hdeliver,h⟩ := (bind_eq_ok_iff _ _ _).mp h
      obtain rfl := Except.ok.inj h
      exact .first hqos _ _ rc' out hmem (.added hmem hmemory payload hpayload) hdeliver

theorem PassedOn.acts (hlegal : ∀ a, legal (.record a)) {topicName : MqttString}
    {message : MqttMessage} {len : ℤ} {r : Returned} (h : PassedOn c around topicName message len r) :
    Acts legal c r.client := by
  cases h with
  | plain => exact Acts.refl _ _
  | again => exact Acts.refl _ _
  | first hqos c' rc rc' out hmem hrec => exact hrec.acts_answered hlegal (.inl rfl)

/-- How `mqtt_publish_packet_handle` has gone. -/
inductive PublishHandled (c : Client) (around : Around) (buf : List UInt8) : Returned → Prop
  | refused (writeBuf : List UInt8) (rc : ℤ) : PublishHandled c around buf ⟨c.withBuf writeBuf, rc, []⟩
  | passedOn (p : PublishOut) (writeBuf : List UInt8) (len : ℤ) (r : Returned)
      (hconn : c.clientState = .connected)
      (hp : deserializePublish ⟨0, 0, 0, around.unassigned, ⟨none,0,none⟩, [], 0⟩ buf = some (1,p))
      (hr : PassedOn (c.withBuf writeBuf) around p.topicName p.message len r) (sent : List Output)
      (hsent : p.qos ≠ 0 → publishAnswer c p.qos p.packetid = .ok (len,writeBuf) ∧
        sent = [.sent (writeBuf.take len.toNat)]) :
      PublishHandled c around buf ⟨r.client, r.rc, sent ++ r.out⟩

theorem publishPacket_ok {r : Returned} (h : publishPacketHandle c around buf = .ok r) :
    PublishHandled c around buf r := by
  unfold publishPacketHandle at h
  by_cases hconn : mqttIsConnected c ≠ mqttSuccessError
  · rw [if_pos hconn] at h
    obtain rfl := Except.ok.inj h
    exact .refused c.writeBuf _
  · rw [if_neg hconn] at h
    rw [not_not, mqttIsConnected_iff] at hconn
    obtain ⟨⟨ok,p⟩,hp,h⟩ := (bind_eq_ok_iff _ _ _).mp h
    rw [inside_eq_ok_iff] at hp
    dsimp only at h
    by_cases hok : ok ≠ 1
    · rw [if_pos hok] at h
      obtain rfl := Except.ok.inj h
      exact .refused c.writeBuf _
    · rw [if_neg hok] at h
      rw [not_not] at hok
      subst hok
      by_cases hqos : p.qos = 0
      · rw [if_pos hqos] at h
        exact .passedOn p c.writeBuf 0 r hconn hp (publishReceived_ok h) []
          (fun hne => absurd hqos hne)
      · rw [if_neg hqos] at h
        obtain ⟨⟨len,writeBuf⟩,hanswer,h⟩ := (bind_eq_ok_iff _ _ _).mp h
        dsimp only at h
        by_cases hlen : len ≤ 0
        · rw [if_pos hlen] at h
          obtain rfl := Except.ok.inj h
          exact .refused writeBuf _
        · rw [if_neg hlen] at h
          by_cases hsends : around.sends = false
          · rw [if_pos hsends] at h
            obtain rfl := Except.ok.inj h
            exact .refused writeBuf _
          · rw [if_neg hsends] at h
            obtain ⟨s,hs,h⟩ := (bind_eq_ok_iff _ _ _).mp h
            obtain rfl := Except.ok.inj h
            refine .passedOn p writeBuf len s hconn hp (publishReceived_ok hs) _ (fun _ => ⟨hanswer, ?_⟩)
            rw [sentOf, if_pos (by simpa using hsends)]

theorem PublishHandled.acts (hlegal : ∀ a, legal (.record a)) {r : Returned}
    (h : PublishHandled c around buf r) : Acts legal c r.client := by
  cases h with
  | refused writeBuf => exact withBuf_acts writeBuf
  | passedOn p writeBuf len r hconn hp hr => exact (withBuf_acts writeBuf).trans (hr.acts hlegal)

/-- How `mqtt_publish_ack_packet` leaves the client. -/
inductive AnswerSent (c : Client) (around : Around) (id : UInt16) : ℕ → Client → Prop
  | pubrel (writeBuf : List UInt8) (len : ℤ) (c' : Client) (rc : ℤ)
      (hrec : Recorded (c.withBuf writeBuf) around .pubcomp id len none c' rc) :
      AnswerSent c around id MsgType.pubrec.code c'
  | pubcomp (writeBuf : List UInt8) : AnswerSent c around id MsgType.pubrel.code (c.withBuf writeBuf)
  | other (type : ℕ) (hrec : type ≠ MsgType.pubrec.code) (hrel : type ≠ MsgType.pubrel.code) :
      AnswerSent c around id type c

theorem publishAckPacket_ok {id : UInt16} {type : ℕ} {r : Returned}
    (h : publishAckPacket c around id type = .ok r) : AnswerSent c around id type r.client := by
  unfold publishAckPacket at h
  by_cases hrec : type = MsgType.pubrec.code
  · rw [if_pos hrec] at h
    subst hrec
    obtain ⟨⟨len,writeBuf⟩,-,h⟩ := (bind_eq_ok_iff _ _ _).mp h
    obtain ⟨⟨d,rc⟩,hd,h⟩ := (bind_eq_ok_iff _ _ _).mp h
    dsimp only at h
    have hsent := AnswerSent.pubrel writeBuf len d rc (ackListRecord_ok hd)
    split_ifs at h <;> (obtain rfl := Except.ok.inj h; exact hsent)
  · rw [if_neg hrec] at h
    by_cases hrel : type = MsgType.pubrel.code
    · rw [if_pos hrel] at h
      subst hrel
      obtain ⟨⟨len,writeBuf⟩,-,h⟩ := (bind_eq_ok_iff _ _ _).mp h
      dsimp only at h
      split_ifs at h <;> (obtain rfl := Except.ok.inj h; exact .pubcomp writeBuf)
    · rw [if_neg hrel] at h
      obtain rfl := Except.ok.inj h
      exact .other type hrec hrel

/-- How `mqtt_pubrec_and_pubrel_packet_handle` has gone. -/
inductive AnswerHandled (signed : Bool) (c : Client) (around : Around) (buf : List UInt8) :
    Client → Prop
  | refused : AnswerHandled signed c around buf c
  | answered (type : ℕ) (id : UInt16) (d : Client) (hack : c.clientState = .connected ∧
        ackOf signed around buf = some (type,id)) (hd : AnswerSent c around id type d) :
      AnswerHandled signed c around buf (ackListUnrecord d type id).1

theorem pubrec_ok {r : Returned}
    (htype : packetTypeOf (some buf) = MsgType.pubrec.code ∨
      packetTypeOf (some buf) = MsgType.pubrel.code)
    (h : pubrecAndPubrelPacketHandle c around buf = .ok r) :
    AnswerHandled signed c around buf r.client := by
  unfold pubrecAndPubrelPacketHandle at h
  by_cases hconn : mqttIsConnected c ≠ mqttSuccessError
  · rw [if_pos hconn] at h
    obtain rfl := Except.ok.inj h
    exact .refused
  · rw [if_neg hconn] at h
    rw [not_not, mqttIsConnected_iff] at hconn
    obtain ⟨⟨ok,ack⟩,hack,h⟩ := (bind_eq_ok_iff _ _ _).mp h
    dsimp only at h
    by_cases hok : ok ≠ 1
    · rw [if_pos hok] at h
      obtain rfl := Except.ok.inj h
      exact .refused
    · rw [if_neg hok] at h
      rw [not_not] at hok
      obtain ⟨s,hs,h⟩ := (bind_eq_ok_iff _ _ _).mp h
      obtain rfl := Except.ok.inj h
      apply AnswerHandled.answered _ _ s.client ⟨hconn, ?_⟩ (publishAckPacket_ok hs)
      have hother : ¬ (packetTypeOf (some buf) = MsgType.puback.code ∨
          packetTypeOf (some buf) = MsgType.pubcomp.code) := by
        rcases htype with htype | htype <;> (rw [htype]; decide)
      rw [ackOf, if_neg hother, if_pos htype, (inside_eq_ok_iff _ _).mp hack, Option.bind_some,
        if_pos hok]

theorem AnswerHandled.acts (hlegal : ∀ a, legal (.record a)) {c' : Client}
    (hsettle : ∀ k, c.clientState = .connected → ackOf signed around buf = some k → legal (.settle k))
    (h : AnswerHandled signed c around buf c') : Acts legal c c' := by
  cases h with
  | refused => exact Acts.refl _ _
  | answered type id d hack hd =>
    have hsent : Acts legal c d := by
      cases hd with
      | pubrel writeBuf len c' rc hrec =>
        exact (withBuf_acts writeBuf).trans (hrec.acts_answered hlegal (.inr rfl))
      | pubcomp writeBuf => exact withBuf_acts writeBuf
      | other => exact Acts.refl _ _
    exact hsent.trans (ackListUnrecord_acts _ _ (hsettle _ hack.1 hack.2))

/-- Sending a PINGREQ, or giving the connection up, leaves all lists alone. -/
theorem keepAlive_ok {r : Returned} (h : mqttKeepAlive c around = .ok r) :
    r.client.ackHandlerList = c.ackHandlerList ∧ r.client.ackHandlerNumber = c.ackHandlerNumber ∧
    r.client.packetId = c.packetId ∧ r.client.msgHandlerList = c.msgHandlerList ∧
    r.client.heap = c.heap ∧ r.client.heapEnd = c.heapEnd := by
  unfold mqttKeepAlive at h
  split_ifs at h
  · obtain rfl := Except.ok.inj h
    exact ⟨rfl,rfl,rfl,rfl,rfl,rfl⟩
  · obtain rfl := Except.ok.inj h
    exact ⟨rfl,rfl,rfl,rfl,rfl,rfl⟩
  · obtain rfl := Except.ok.inj h
    exact ⟨rfl,rfl,rfl,rfl,rfl,rfl⟩
  · obtain ⟨⟨len,buf⟩,-,h⟩ := (bind_eq_ok_iff _ _ _).mp h
    dsimp only at h
    split_ifs at h <;> (obtain rfl := Except.ok.inj h; exact ⟨rfl,rfl,rfl,rfl,rfl,rfl⟩)

/-- How the `switch` of `mqtt_packet_handle` has gone. -/
inductive Switched (signed : Bool) (c : Client) (around : Around) :
    Option (List UInt8) → Client → List Output → Prop
  | idle (received : Option (List UInt8)) : Switched signed c around received c []
  | pingresp (received : Option (List UInt8)) :
      Switched signed c around received { c with pingOutstanding := 0 } []
  | puback (buf : List UInt8) (r : Returned) (htype : packetTypeOf (some buf) = MsgType.puback.code ∨
        packetTypeOf (some buf) = MsgType.pubcomp.code)
      (h : pubackAndPubcompPacketHandle c around buf = .ok r) :
      Switched signed c around (some buf) r.client r.out
  | suback (buf : List UInt8) (r : Returned)
      (htype : packetTypeOf (some buf) = MsgType.suback.code)
      (h : SubackHandled signed c around buf r) :
      Switched signed c around (some buf) r.client r.out
  | unsuback (buf : List UInt8) (r : Returned)
      (htype : packetTypeOf (some buf) = MsgType.unsuback.code)
      (h : UnsubackHandled signed c around buf r) :
      Switched signed c around (some buf) r.client r.out
  | publish (buf : List UInt8) (r : Returned)
      (htype : packetTypeOf (some buf) = MsgType.publish.code) (h : PublishHandled c around buf r) :
      Switched signed c around (some buf) r.client r.out
  | pubrec (buf : List UInt8) (r : Returned) (htype : packetTypeOf (some buf) = MsgType.pubrec.code ∨
        packetTypeOf (some buf) = MsgType.pubrel.code)
      (h : AnswerHandled signed c around buf r.client) :
      Switched signed c around (some buf) r.client r.out

theorem map_some_ok {x : Except ClientFault Returned} {d : Client} {out : List Output}
    (h : (x.map fun r => some (r.client,r.out)) = .ok (some (d,out))) :
    ∃ r, x = .ok r ∧ d = r.client ∧ out = r.out := by
  cases x with
  | error e => contradiction
  | ok r =>
    obtain ⟨rfl,rfl⟩ := Prod.mk.inj (Option.some.inj (Except.ok.inj h))
    exact ⟨r,rfl,rfl,rfl⟩

theorem packetSwitch_ok {received : Option (List UInt8)} {d : Client} {out : List Output}
    (h : packetSwitch c around signed received = .ok (some (d,out))) :
    Switched signed c around received d out := by
  unfold packetSwitch at h
  dsimp only at h
  by_cases hzero : packetTypeOf received = 0
  · rw [if_pos hzero] at h
    obtain ⟨rfl,rfl⟩ := Prod.mk.inj (Option.some.inj (Except.ok.inj h))
    exact .idle received
  · rw [if_neg hzero] at h
    cases received with
    | none => exact absurd rfl hzero
    | some buf =>
      rw [Option.getD_some] at h
      split_ifs at h with hack hsub hunsub hpub hrec hping
      · obtain ⟨r,hr,rfl,rfl⟩ := map_some_ok h
        exact .puback buf r hack hr
      · obtain ⟨r,hr,rfl,rfl⟩ := map_some_ok h
        exact .suback buf r hsub (suback_ok hsub hr)
      · obtain ⟨r,hr,rfl,rfl⟩ := map_some_ok h
        exact .unsuback buf r hunsub (unsuback_ok hunsub hr)
      · obtain ⟨r,hr,rfl,rfl⟩ := map_some_ok h
        exact .publish buf r hpub (publishPacket_ok hr)
      · obtain ⟨r,hr,rfl,rfl⟩ := map_some_ok h
        exact .pubrec buf r hrec (pubrec_ok hrec hr)
      · obtain ⟨rfl,rfl⟩ := Prod.mk.inj (Option.some.inj (Except.ok.inj h))
        exact .pingresp _
      · exact absurd (Except.ok.inj h) (by simp)

theorem Switched.acts (hlegal : ∀ a, legal (.record a)) {received : Option (List UInt8)}
    {d : Client} {out : List Output}
    (hsettle : ∀ buf k, received = some buf → c.clientState = .connected →
      ackOf signed around buf = some k → legal (.settle k))
    (h : Switched signed c around received d out) : Acts legal c d := by
  cases h with
  | idle => exact Acts.refl _ _
  | pingresp => exact Acts.of_same rfl rfl rfl
  | puback buf r htype h => exact puback_acts htype (hsettle buf · rfl) h
  | suback buf r htype h => exact h.acts (hsettle buf · rfl)
  | unsuback buf r htype h => exact h.acts (hsettle buf · rfl)
  | publish buf r htype h => exact h.acts hlegal
  | pubrec buf r htype h => exact h.acts hlegal (hsettle buf · rfl)

/-- How `mqtt_packet_handle` has gone: the keep-alive comes after the packet. -/
theorem packetHandle_ok {received : Option (List UInt8)} {r : Returned}
    (h : packetHandle c around signed received = .ok r) :
    r = ⟨c, packetTypeOf received, []⟩ ∨
    ∃ d out s, Switched signed c around received d out ∧ mqttKeepAlive d around = .ok s ∧
      r.client = s.client ∧ r.out = out ++ s.out := by
  unfold packetHandle at h
  obtain ⟨x,hx,h⟩ := (bind_eq_ok_iff _ _ _).mp h
  cases x with
  | none => exact .inl (Except.ok.inj h).symm
  | some x =>
    obtain ⟨d,out⟩ := x
    obtain ⟨s,hs,h⟩ := (bind_eq_ok_iff _ _ _).mp h
    obtain rfl := Except.ok.inj h
    exact .inr ⟨d, out, s, packetSwitch_ok hx, hs, rfl, rfl⟩

theorem packetHandle_acts (hlegal : ∀ a, legal (.record a)) {received : Option (List UInt8)}
    {r : Returned}
    (hsettle : ∀ buf k, received = some buf → c.clientState = .connected →
      ackOf signed around buf = some k → legal (.settle k))
    (h : packetHandle c around signed received = .ok r) : Acts legal c r.client := by
  rcases packetHandle_ok h with rfl | ⟨d,out,s,hd,hs,hclient,-⟩
  · exact Acts.refl _ _
  · obtain ⟨hlist,hnumber,hid,-⟩ := keepAlive_ok hs
    rw [hclient]
    exact (hd.acts hlegal hsettle).trans (Acts.of_same hlist hnumber hid)

end Packets

end CppOperate.Mqtt
