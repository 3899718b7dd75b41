import CppOperate.MqttSession
import Mathlib

/-! What becomes of a message: a PUBLISH of the client is kept, and sent again, until it is
answered, and a message that arrives with QoS 2 is handed on once. -/
namespace CppOperate.Mqtt
open ByteMemory CLoops CNumbers CStrings Ledgers StepRuns WireFormats

/-- Between the two moments bytes were stored, or nothing was. -/
def Stores (p q : Cursor) : Prop := q = p ∨ ∃ bs, p.put bs = some q

theorem Stores.trans {p q r : Cursor} (hpq : Stores p q) (hqr : Stores q r) : Stores p r := by
  rcases hpq with rfl | ⟨as,has⟩
  · exact hqr
  · rcases hqr with rfl | ⟨bs,hbs⟩
    · exact .inr ⟨as,has⟩
    · refine .inr ⟨as ++ bs, ?_⟩
      rw [Cursor.put_append, has, Option.bind_some, hbs]

theorem writeData_stores {p q : Cursor} {data : List UInt8} {len : ℤ}
    (h : writeData p data len = some q) : Stores p q := by
  unfold writeData at h
  split_ifs at h
  obtain ⟨bs,-,hput⟩ := Option.bind_eq_some_iff.mp h
  exact .inr ⟨bs,hput⟩

theorem writeMqttString_stores {p q : Cursor} {s : MqttString} (h : writeMqttString p s = some q) :
    Stores p q := by
  unfold writeMqttString at h
  split_ifs at h
  · obtain ⟨p',hp,h⟩ := Option.bind_eq_some_iff.mp h
    obtain ⟨data,-,h⟩ := Option.bind_eq_some_iff.mp h
    exact Stores.trans (.inr ⟨_,hp⟩) (writeData_stores h)
  · cases hc : s.cstring with
    | none =>
      rw [hc] at h
      exact .inr ⟨_,h⟩
    | some c =>
      rw [hc] at h
      obtain ⟨p',hp,h⟩ := Option.bind_eq_some_iff.mp h
      exact Stores.trans (.inr ⟨_,hp⟩) (writeData_stores h)

theorem packetEncode_stores {p q : Cursor} {length : ℤ} (h : packetEncode p length = some q) :
    Stores p q := by
  fun_induction packetEncode p length with
  | case1 p length d length' hpos ih =>
    obtain ⟨p',hp,h⟩ := Option.bind_eq_some_iff.mp h
    exact Stores.trans (.inr ⟨_,hp⟩) (ih p' h)
  | case2 p length d length' hpos => exact .inr ⟨_,h⟩

/-- A PUBLISH that was serialized stands at the front of the buffer, its header first. -/
theorem serializePublish_front {buf : List UInt8} {buflen : ℤ} {dup : UInt8} {qos : ℤ}
    {retained : UInt8} {packetid : UInt16} {topicName : MqttString} {payload : List UInt8}
    {payloadlen len : ℤ} {buf' : List UInt8}
    (h : serializePublish buf buflen dup qos retained packetid topicName payload payloadlen =
      some (len,buf')) (hlen : 0 < len) :
    ∃ bs rest, buf' = (headerOf .publish dup qos retained).byte :: bs ++ rest ∧
      len = 1+bs.length := by
  unfold serializePublish at h
  obtain ⟨remLen,-,h⟩ := Option.bind_eq_some_iff.mp h
  obtain ⟨room,-,h⟩ := Option.bind_eq_some_iff.mp h
  by_cases hshort : buflen < room
  · rw [if_pos hshort] at h
    obtain ⟨rfl,-⟩ := Prod.mk.inj (Option.some.inj h)
    exact absurd hlen (by decide)
  · rw [if_neg hshort] at h
    obtain ⟨p1,h1,h⟩ := Option.bind_eq_some_iff.mp h
    obtain ⟨p2,h2,h⟩ := Option.bind_eq_some_iff.mp h
    obtain ⟨p3,h3,h⟩ := Option.bind_eq_some_iff.mp h
    obtain ⟨p4,h4,h⟩ := Option.bind_eq_some_iff.mp h
    obtain ⟨p5,h5,h⟩ := Option.bind_eq_some_iff.mp h
    obtain ⟨rfl,rfl⟩ := Prod.mk.inj (Option.some.inj h)
    have hid : Stores p3 p4 := by
      split_ifs at h4
      · exact .inr ⟨_,h4⟩
      · exact .inl (Option.some.inj h4).symm
    have hall : Stores p1 p5 :=
      (((packetEncode_stores h2).trans (writeMqttString_stores h3)).trans hid).trans
        (writeData_stores h5)
    have hput : ∃ bs, Cursor.put ⟨buf,0⟩ ((headerOf .publish dup qos retained).byte :: bs) =
        some p5 := by
      rcases hall with rfl | ⟨bs,hbs⟩
      · exact ⟨[],h1⟩
      · refine ⟨bs, ?_⟩
        rw [← List.singleton_append, Cursor.put_append]
        exact Option.bind_eq_some_iff.mpr ⟨p1,h1,hbs⟩
    obtain ⟨bs,hput⟩ := hput
    rw [Cursor.put_start] at hput
    split_ifs at hput
    obtain rfl := Option.some.inj hput
    refine ⟨bs, _, rfl, ?_⟩
    rw [List.length_cons]
    push_cast
    ring

/-- The packet with its DUP bit set. -/
def withDup : List UInt8 → List UInt8
  | [] => []
  | b :: bs => { MqttHeader.ofByte b with dup := 1 }.byte :: bs

theorem setPublishDup_front {c c' : Client} {rc : ℤ} {b : UInt8} {bs : List UInt8}
    (hbuf : c.writeBuf = b :: bs) (htype : (MqttHeader.ofByte b).type.toNat = MsgType.publish.code)
    (h : setPublishDup c 1 = .ok (c',rc)) : c' = c.withBuf (withDup c.writeBuf) := by
  unfold setPublishDup at h
  rw [hbuf] at h
  obtain ⟨⟨byte,n⟩,hread,h⟩ := (bind_eq_ok_iff _ _ _).mp h
  obtain ⟨rfl,-⟩ := Prod.mk.inj (Option.some.inj ((inside_eq_ok_iff _ _).mp hread))
  dsimp only at h
  rw [if_neg (not_not.mpr htype)] at h
  obtain ⟨ptr,hptr,h⟩ := (bind_eq_ok_iff _ _ _).mp h
  obtain ⟨rfl,-⟩ := Prod.mk.inj (Except.ok.inj h)
  rw [inside_eq_ok_iff, writeChar, Cursor.put_start] at hptr
  split_ifs at hptr
  obtain rfl := Option.some.inj hptr
  rw [hbuf]
  rfl

/-- What answers a PUBLISH of this QoS. -/
def answerOf (qos : ℤ) : MsgType := if qos = 1 then .puback else .pubrec

/-- What is recorded of a PUBLISH that went out. -/
def recordOf (qos : ℤ) (id : UInt16) (packet : List UInt8) : AckHandlers :=
  ⟨(answerOf qos).code, id, (withDup packet).take (packet.length%2^16), none⟩

theorem recordPublish_ok {c c' : Client} {around : Around} {qos : ℤ} {id : UInt16}
    {b : UInt8} {bs rest : List UInt8} (hqos : qos = 1 ∨ qos = 2)
    (hbuf : c.writeBuf = b :: bs ++ rest)
    (htype : (MqttHeader.ofByte b).type.toNat = MsgType.publish.code)
    (h : recordPublish c around qos id (1+bs.length) = .ok (c', mqttSuccessError)) :
    c'.packetId = c.packetId ∧ c'.clientState = c.clientState ∧
    recordOf qos id (b :: bs) ∈ c'.ackHandlerList := by
  unfold recordPublish at h
  rw [if_neg (by rcases hqos with rfl | rfl <;> decide)] at h
  obtain ⟨⟨d,rc⟩,hd,h⟩ := (bind_eq_ok_iff _ _ _).mp h
  obtain rfl := setPublishDup_front hbuf htype hd
  have hrec : Recorded (c.withBuf (withDup c.writeBuf)) around (answerOf qos) id (1+bs.length)
      none c' mqttSuccessError := by
    rcases hqos with rfl | rfl
    · exact ackListRecord_ok h
    · exact ackListRecord_ok h
  generalize hsuccess : mqttSuccessError = rc' at hrec
  cases hrec with
  | isExist => exact absurd hsuccess (by decide)
  | noMemory => exact absurd hsuccess (by decide)
  | added hmem hmemory payload hpayload =>
    refine ⟨rfl, rfl, List.mem_append_right _ (List.mem_singleton.mpr ?_)⟩
    obtain ⟨-,rfl⟩ := (readAt_eq_some_iff _ _ _ _).mp hpayload
    have hlen : ((1+(bs.length:ℤ))%2^16).toNat = (b :: bs).length%2^16 := by
      rw [List.length_cons]
      omega
    have hfront : withDup (b :: bs ++ rest) = withDup (b :: bs) ++ rest := rfl
    have hdup : (withDup (b :: bs)).length = (b :: bs).length := rfl
    have hpayload' : ((withDup c.writeBuf).drop 0).take ((1+(bs.length:ℤ))%2^16).toNat =
        (withDup (b :: bs)).take ((b :: bs).length%2^16) := by
      rw [hlen, List.drop_zero, hbuf, hfront, List.take_append_of_le_length]
      rw [hdup]
      exact Nat.mod_le _ _
    exact congrArg (AckHandlers.mk _ _ · none) hpayload'.symm

/-- A PUBLISH that was a success went out, and is on the list with the id it has. -/
theorem publish_recorded {c : Client} {around : Around} {topicFilter : CString} {msg : MqttMessage}
    {r : Returned} (hqos : msg.qos = 1 ∨ msg.qos = 2)
    (h : mqttPublish c around topicFilter msg = .ok r) (hrc : r.rc = mqttSuccessError) :
    ∃ packet, r.out = [.sent packet] ∧
      recordOf msg.qos r.client.packetId packet ∈ r.client.ackHandlerList := by
  unfold mqttPublish at h
  by_cases hstate : c.clientState ≠ .connected
  · rw [if_pos hstate] at h
    obtain rfl := Except.ok.inj h
    exact absurd hrc (show mqttNotConnectError ≠ mqttSuccessError by decide)
  · rw [if_neg hstate] at h
    obtain ⟨payloadlen,-,h⟩ := (bind_eq_ok_iff _ _ _).mp h
    by_cases hlong : c.writeBuf.length < payloadlen
    · rw [if_pos hlong] at h
      obtain rfl := Except.ok.inj h
      exact absurd hrc (show mqttBufferTooShortError ≠ mqttSuccessError by decide)
    · rw [if_neg hlong] at h
      obtain ⟨s,hs,h⟩ := (bind_eq_ok_iff _ _ _).mp h
      have hsr : s = r := by
        split_ifs at h with hlost
        · obtain rfl := Except.ok.inj h
          change s.rc = mqttSuccessError at hrc
          rw [hrc] at hlost
          exact absurd hlost (by decide)
        · exact Except.ok.inj h
      subst hsr
      unfold publishLocked at hs
      rw [if_neg (by rcases hqos with hqos | hqos <;> (rw [hqos]; decide))] at hs
      by_cases hmax : ackHandlerIsMaximum c = true
      · rw [if_pos hmax] at hs
        obtain rfl := Except.ok.inj hs
        exact absurd hrc (show mqttAckHandlerNumTooMuchError ≠ mqttSuccessError by decide)
      · rw [if_neg hmax] at hs
        unfold publishWith at hs
        obtain ⟨⟨len,buf⟩,hserial,hs⟩ := (bind_eq_ok_iff _ _ _).mp hs
        rw [inside_eq_ok_iff] at hserial
        dsimp only at hs
        by_cases hlen : len ≤ 0
        · rw [if_pos hlen] at hs
          obtain rfl := Except.ok.inj hs
          exact absurd hrc (show mqttFailedError ≠ mqttSuccessError by decide)
        · rw [if_neg hlen] at hs
          by_cases hsends : around.sends = false
          · rw [if_pos hsends] at hs
            obtain rfl := Except.ok.inj hs
            exact absurd hrc (show mqttSendPacketError ≠ mqttSuccessError by decide)
          · rw [if_neg hsends] at hs
            obtain ⟨⟨d,rc⟩,hd,hs⟩ := (bind_eq_ok_iff _ _ _).mp hs
            obtain rfl := Except.ok.inj hs
            obtain rfl : rc = mqttSuccessError := hrc
            obtain ⟨bs,rest,rfl,rfl⟩ := serializePublish_front hserial (not_le.mp hlen)
            have htype : (MqttHeader.ofByte
                (headerOf .publish 0 msg.qos msg.retained).byte).type.toNat =
                MsgType.publish.code := by
              rw [MqttHeader.ofByte_byte]
              rfl
            obtain ⟨hid,-,hmem⟩ := recordPublish_ok hqos rfl htype hd
            refine ⟨(headerOf .publish 0 msg.qos msg.retained).byte :: bs, ?_, ?_⟩
            · have hcount : (1+(bs.length:ℤ)).toNat =
                  ((headerOf .publish 0 msg.qos msg.retained).byte :: bs).length := by
                rw [List.length_cons]
                omega
              rw [sentOf, if_pos (by simpa using hsends), hcount, List.take_left]
            · change recordOf msg.qos d.packetId _ ∈ _
              rw [hid]
              exact hmem

theorem step_keeps {signed : Bool} {a : AckHandlers} {c d : Client} {call : Call}
    (ha : a ∈ c.ackHandlerList) (hsettle : ¬ call.Settles signed c a.key) (hdrop : ¬ call.Drops c a)
    (hstep : step signed c call = some d) : a ∈ d.ackHandlerList := by
  obtain ⟨ms,hms,hd⟩ := (step_acts hstep).moves
  rw [hd]
  apply mem_play AckHandlers.key ha
  intro m hm hends
  have hlegal := hms m hm
  cases m with
  | record b => exact hends
  | settle k =>
    obtain rfl : k = a.key := hends
    exact hsettle hlegal
  | retain keep => exact hdrop (hlegal a hends)

/-- What is resent is given up with the session only. -/
theorem drops_of_resent {a : AckHandlers} {c : Client} {call : Call} (hresent : Resent a.type)
    (hclean : ¬ (call = .cleanSession ∧ c.clientState = .cleanSession)) : ¬ call.Drops c a := by
  intro hdrop
  cases call with
  | scan expired resends => exact hdrop hresent
  | reconnect k around resends => exact hdrop hresent
  | cleanSession => exact hclean ⟨rfl,hdrop⟩
  | connect => exact hdrop
  | subscribe => exact hdrop
  | unsubscribe => exact hdrop
  | publish => exact hdrop
  | disconnect => exact hdrop
  | packet => exact hdrop

/-- What is resent stays until it is answered, or the session is cleaned. -/
theorem resent_kept {signed : Bool} {a : AckHandlers} {c d : Client} {calls : List Call}
    (hresent : Resent a.type) (ha : a ∈ c.ackHandlerList)
    (hopen : Meets (step signed) (fun s call => ¬ call.Settles signed s a.key ∧
      ¬ (call = .cleanSession ∧ s.clientState = .cleanSession)) c calls)
    (hrun : run (step signed) c calls = some d) : a ∈ d.ackHandlerList := by
  apply run_invariant_of_meets (step signed) _ (fun s => a ∈ s.ackHandlerList) _ c d calls ha hopen hrun
  intro s call t hs hcall hstep
  exact step_keeps hs hcall.1 (drops_of_resent hresent hcall.2) hstep

/-- A PUBLISH with QoS 1 or 2 that was a success is sent again, with its DUP bit set, by
every scan that finds it overdue, until its answer comes or the session is cleaned. Of a
packet of 65536 bytes or more it is only the first bytes, as many as the length modulo
65536. The calls come one at a time, and a run ends at one that would use a dangling handler
or leave a buffer. A PUBACK or PUBREC too short for a packet id is the answer when the
variable, to which nothing was assigned, happens to hold the id. -/
theorem publish_kept_until_answered (signed : Bool) (c : Client) (around : Around)
    (topicFilter : CString) (msg : MqttMessage) (r : Returned) (hqos : msg.qos = 1 ∨ msg.qos = 2)
    (h : mqttPublish c around topicFilter msg = .ok r) (hrc : r.rc = mqttSuccessError) :
    ∃ packet, r.out = [.sent packet] ∧
      let a := recordOf msg.qos r.client.packetId packet
      ∀ calls d, run (step signed) r.client calls = some d →
        Meets (step signed) (fun s call => ¬ call.Settles signed s a.key ∧
          ¬ (call = .cleanSession ∧ s.clientState = .cleanSession)) r.client calls →
        a ∈ d.ackHandlerList ∧
        ∀ expired resends e, perform signed d (.scan expired resends) = .ok e →
          d.clientState = .connected → expired a = true → resends a = true →
          .sent ((withDup packet).take (packet.length%2^16)) ∈ e.out := by
  obtain ⟨packet,hout,hmem⟩ := publish_recorded hqos h hrc
  refine ⟨packet, hout, ?_⟩
  intro a calls d hrun hopen
  have hresent : Resent (answerOf msg.qos).code := by
    rcases hqos with hqos | hqos <;> (rw [hqos]; decide)
  have hkept := resent_kept hresent hmem hopen hrun
  refine ⟨hkept, ?_⟩
  intro expired resends e hscan hstate hexpired hresends
  obtain ⟨⟨d',out⟩,hdone,rfl⟩ := map_ok hscan
  rcases ackListScan_ok hdone with ⟨-,hskip⟩ | ⟨-,e,hloop,-⟩
  · rcases hskip with hnil | hskip
    · rw [hnil] at hkept
      exact absurd hkept List.not_mem_nil
    · exact absurd hstate hskip
  · exact (scanLoop_ok _ _ hloop).2.2.2.2 _ hkept hresent hexpired hresends

/-- The PUBACK for another packet leaves the list as it is. -/
theorem publish_kept_after_other_puback : ∃ r d packet,
    mqttPublish (Client.online (List.replicate 32 0)) .calm stringA ⟨1, 0, 0, 0, 1, some [33]⟩ =
      .ok r ∧
    run (step true) r.client [.packet .calm (some [64,2,0,9])] = some d ∧
    r.out = [.sent packet] ∧ recordOf 1 2 packet ∈ d.ackHandlerList := by
  have hpublish : (mqttPublish (Client.online (List.replicate 32 0)) .calm stringA
      ⟨1, 0, 0, 0, 1, some [33]⟩).toOption.map (fun r => (r.rc, r.client.packetId,
        (run (step true) r.client [.packet .calm (some [64,2,0,9])]).isSome)) =
      some (mqttSuccessError, 2, true) := by decide +kernel
  obtain ⟨r,hr,hrc⟩ := ok_of_map hpublish
  obtain ⟨hrc,hrest⟩ := Prod.mk.inj hrc
  obtain ⟨hid,hrun⟩ := Prod.mk.inj hrest
  obtain ⟨d,hd⟩ := Option.isSome_iff_exists.mp hrun
  obtain ⟨packet,hout,hkept⟩ := publish_kept_until_answered true _ .calm stringA
    ⟨1, 0, 0, 0, 1, some [33]⟩ r (.inl rfl) hr hrc
  refine ⟨r, d, packet, hr, hd, hout, ?_⟩
  rw [← hid]
  refine (hkept _ d hd ⟨⟨?_, fun h => absurd h.1 (by simp)⟩, fun _ _ => trivial⟩).1
  rintro ⟨-,buf,hbuf,hack⟩
  obtain rfl := Option.some.inj hbuf
  have hother : ackOf true .calm [64,2,0,9] = some (4,9) := by decide +kernel
  rw [hother] at hack
  have hsame : (9 : UInt16) = r.client.packetId := (Prod.mk.inj (Option.some.inj hack)).2
  rw [hid] at hsame
  exact absurd hsame (by decide)

theorem deserializeAck_type {out ack : AckOut} {buf : List UInt8} {ok : ℤ}
    (h : deserializeAck out buf = some (ok,ack)) : ack.packettype = packetTypeOf (some buf) := by
  unfold deserializeAck at h
  obtain ⟨⟨byte,n⟩,hread,h⟩ := Option.bind_eq_some_iff.mp h
  obtain ⟨⟨rc,mylen⟩,-,h⟩ := Option.bind_eq_some_iff.mp h
  have hbyte : buf.headD 0 = byte := by
    obtain ⟨b,hb,hpair⟩ := Option.map_eq_some_iff.mp hread
    obtain ⟨rfl,-⟩ := Prod.mk.inj hpair
    cases buf with
    | nil => contradiction
    | cons b' bs => exact Option.some.inj hb
  rw [packetTypeOf, hbyte]
  dsimp only at h
  split_ifs at h
  · obtain ⟨-,rfl⟩ := Prod.mk.inj (Option.some.inj h)
    rfl
  · obtain ⟨⟨id,m⟩,-,h⟩ := Option.bind_eq_some_iff.mp h
    obtain ⟨-,rfl⟩ := Prod.mk.inj (Option.some.inj h)
    rfl

/-- There is memory for an ack handler. -/
def Call.HasMemory : Call → Prop
  | .packet around _ => around.ackMemory = true
  | _ => True

/-- The PUBREC for an id has been answered: now a PUBCOMP is waited for. -/
theorem AnswerHandled.pubcomp {signed : Bool} {c c' : Client} {around : Around} {buf : List UInt8}
    {id : UInt16} (hmemory : around.ackMemory = true)
    (hack : ackOf signed around buf = some (MsgType.pubrec.code,id))
    (h : AnswerHandled signed c around buf c') :
    c' = c ∨ (MsgType.pubcomp.code,id) ∈ c'.ackHandlerList.map AckHandlers.key := by
  cases h with
  | refused => exact .inl rfl
  | answered type id' d hack' hd =>
    have hpair := Option.some.inj (hack.symm.trans hack'.2)
    obtain ⟨htype,rfl⟩ := Prod.mk.inj hpair
    refine .inr ?_
    have hkey : (MsgType.pubcomp.code,id) ∈ d.ackHandlerList.map AckHandlers.key := by
      cases hd with
      | pubrel writeBuf len c' rc hrec =>
        cases hrec with
        | isExist hmem => exact hmem
        | noMemory hmem hnone =>
          rw [hmemory] at hnone
          contradiction
        | added hmem _ payload hpayload =>
          change _ ∈ (_ ++ [_]).map AckHandlers.key
          rw [List.map_append]
          exact List.mem_append_right _ (List.mem_singleton.mpr rfl)
      | pubcomp writeBuf => exact absurd htype (by decide)
      | other type hrec hrel => exact absurd htype.symm hrec
    obtain ⟨a,ha,hak⟩ := List.mem_map.mp hkey
    apply List.mem_map.mpr
    refine ⟨a, ?_, hak⟩
    change a ∈ (ackListUnrecordLoop _ _ _ _ _).1
    rw [(ackListUnrecordLoop_spec _ _ _ _ _).1]
    apply List.mem_filter.mpr
    refine ⟨ha, decide_eq_true ?_⟩
    rw [hak, ← htype]
    intro heq
    exact absurd (Prod.mk.inj heq).1 (by decide)

theorem Switched.pubcomp {signed : Bool} {c d : Client} {around : Around} {buf : List UInt8}
    {out : List Output} {id : UInt16} (hmemory : around.ackMemory = true)
    (hack : ackOf signed around buf = some (MsgType.pubrec.code,id))
    (hpending : ∃ a ∈ c.ackHandlerList, a.key = (MsgType.pubrec.code,id) ∨
      a.key = (MsgType.pubcomp.code,id))
    (h : Switched signed c around (some buf) d out) :
    ∃ a ∈ d.ackHandlerList, a.key = (MsgType.pubrec.code,id) ∨
      a.key = (MsgType.pubcomp.code,id) := by
  have hother {type : ℕ} {id' : UInt16} {P : Prop} (hne : type ≠ MsgType.pubrec.code)
      (hack' : ackOf signed around buf = some (type,id')) : P := by
    rw [hack] at hack'
    exact absurd (Prod.mk.inj (Option.some.inj hack')).1.symm hne
  cases h with
  | idle => exact hpending
  | pingresp => exact hpending
  | puback buf r htype h =>
    have htype' : packetTypeOf (some buf) = MsgType.pubrec.code := by
      rw [ackOf, if_pos htype] at hack
      obtain ⟨⟨ok,ack⟩,hack,hpair⟩ := Option.map_eq_some_iff.mp hack
      rw [← deserializeAck_type hack]
      exact (Prod.mk.inj hpair).1
    rw [htype'] at htype
    exact absurd htype (by decide)
  | suback buf r htype h =>
    cases h with
    | refused => exact hpending
    | unknown id' hack' => exact hother (by decide) hack'.2
    | nack id' p d hack' => exact hother (by decide) hack'.2
    | installed id' p d rc hack' => exact hother (by decide) hack'.2
  | unsuback buf r htype h =>
    cases h with
    | refused => exact hpending
    | noHandler id' hack' => exact hother (by decide) hack'.2
    | destroyed id' p d hack' => exact hother (by decide) hack'.2
  | publish buf r htype h =>
    obtain ⟨a,ha,hkey⟩ := hpending
    have hacts : Acts (fun m => ∃ b, m = .record b) c r.client := h.acts fun b => ⟨b,rfl⟩
    obtain ⟨ms,hms,hd⟩ := hacts.moves
    refine ⟨a, ?_, hkey⟩
    rw [hd]
    apply mem_play AckHandlers.key ha
    intro m hm hends
    obtain ⟨b,rfl⟩ := hms m hm
    exact hends
  | pubrec buf r htype h =>
    rcases h.pubcomp hmemory hack with heq | hmem
    · rw [heq]
      exact hpending
    · obtain ⟨a,ha,hkey⟩ := List.mem_map.mp hmem
      exact ⟨a, ha, .inr hkey⟩

/-- The exchange of a message with QoS 2 is not forgotten halfway: until its PUBCOMP comes,
or the session is cleaned, the client waits for its PUBREC or its PUBCOMP. Calls come one at
a time, a run ends as for the PUBLISH above, and again a packet too short for an id counts
when the id is left in the variable. -/
theorem qos2_publish_until_complete (signed : Bool) (c : Client) (around : Around)
    (topicFilter : CString) (msg : MqttMessage) (r : Returned) (hqos : msg.qos = 2)
    (h : mqttPublish c around topicFilter msg = .ok r) (hrc : r.rc = mqttSuccessError)
    (calls : List Call) (d : Client) (hrun : run (step signed) r.client calls = some d)
    (hopen : Meets (step signed) (fun s call =>
      ¬ call.Settles signed s (MsgType.pubcomp.code, r.client.packetId) ∧
      (call.Settles signed s (MsgType.pubrec.code, r.client.packetId) → call.HasMemory) ∧
      ¬ (call = .cleanSession ∧ s.clientState = .cleanSession)) r.client calls) :
    ∃ a ∈ d.ackHandlerList, a.key = (MsgType.pubrec.code, r.client.packetId) ∨
      a.key = (MsgType.pubcomp.code, r.client.packetId) := by
  obtain ⟨packet,-,hmem⟩ := publish_recorded (.inr hqos) h hrc
  have hstart : ∃ a ∈ r.client.ackHandlerList,
      a.key = (MsgType.pubrec.code, r.client.packetId) ∨
      a.key = (MsgType.pubcomp.code, r.client.packetId) := by
    refine ⟨_, hmem, .inl ?_⟩
    rw [hqos]
    rfl
  apply run_invariant_of_meets (step signed) _ _ _ r.client d calls hstart hopen hrun
  rintro s call t ⟨a,ha,hkey⟩ ⟨hcomp,hmemory,hclean⟩ hstep
  by_cases hrec : call.Settles signed s (MsgType.pubrec.code, r.client.packetId)
  · have hmem := hmemory hrec
    cases call with
    | packet around' received =>
      obtain ⟨hconn,buf,rfl,hack⟩ := hrec
      obtain ⟨r',hr',rfl⟩ := step_ok hstep
      rcases packetHandle_ok hr' with rfl | ⟨e,out,u,he,hu,hclient,-⟩
      · exact ⟨a,ha,hkey⟩
      · rw [hclient, (keepAlive_ok hu).1]
        exact he.pubcomp hmem hack ⟨a,ha,hkey⟩
    | connect => exact hrec.elim
    | subscribe => exact hrec.elim
    | unsubscribe => exact hrec.elim
    | publish => exact hrec.elim
    | disconnect => exact hrec.elim
    | scan => exact hrec.elim
    | reconnect => exact hrec.elim
    | cleanSession => exact hrec.elim
  · have hresent : Resent a.type := by
      rcases hkey with hkey | hkey
      · exact .inr (.inl (Prod.mk.inj hkey).1)
      · exact .inr (.inr (.inr (Prod.mk.inj hkey).1))
    refine ⟨a, step_keeps ha ?_ (drops_of_resent hresent hclean) hstep, hkey⟩
    rcases hkey with hkey | hkey
    · rw [hkey]
      exact hrec
    · rw [hkey]
      exact hcomp

/-- The PUBREC has come. -/
theorem qos2_publish_after_pubrec : ∃ r d,
    mqttPublish (Client.online (List.replicate 32 0)) .calm stringA ⟨2, 0, 0, 0, 1, some [33]⟩ =
      .ok r ∧
    run (step true) r.client [.packet .calm (some [80,2,0,2])] = some d ∧
    ∃ a ∈ d.ackHandlerList, a.key = (5,2) ∨ a.key = (7,2) := by
  have hpublish : (mqttPublish (Client.online (List.replicate 32 0)) .calm stringA
      ⟨2, 0, 0, 0, 1, some [33]⟩).toOption.map (fun r => (r.rc, r.client.packetId,
        (run (step true) r.client [.packet .calm (some [80,2,0,2])]).isSome)) =
      some (mqttSuccessError, 2, true) := by decide +kernel
  obtain ⟨r,hr,hrc⟩ := ok_of_map hpublish
  obtain ⟨hrc,hrest⟩ := Prod.mk.inj hrc
  obtain ⟨hid,hrun⟩ := Prod.mk.inj hrest
  obtain ⟨d,hd⟩ := Option.isSome_iff_exists.mp hrun
  refine ⟨r, d, hr, hd, ?_⟩
  have hwait := qos2_publish_until_complete true _ .calm stringA ⟨2, 0, 0, 0, 1, some [33]⟩ r rfl hr
    hrc _ d hd ⟨⟨?_, fun _ => rfl, fun h => absurd h.1 (by simp)⟩, fun _ _ => trivial⟩
  · rw [hid] at hwait
    exact hwait
  · rintro ⟨-,buf,hbuf,hack⟩
    obtain rfl := Option.some.inj hbuf
    have hother : ackOf true .calm [80,2,0,2] = some (5,2) := by decide +kernel
    rw [hother] at hack
    exact absurd (Prod.mk.inj (Option.some.inj hack)).1 (by decide)

/-- The message of a packet that `mqtt_publish_packet_handle` takes for a PUBLISH. -/
def publishOf (around : Around) (buf : List UInt8) : Option MqttMessage :=
  (deserializePublish ⟨0, 0, 0, around.unassigned, ⟨none,0,none⟩, [], 0⟩ buf).bind fun r =>
    if r.1 = 1 then some r.2.message else none

theorem publishOf_eq_some_iff {around : Around} {buf : List UInt8} {m : MqttMessage} :
    publishOf around buf = some m ↔ ∃ p, deserializePublish
      ⟨0, 0, 0, around.unassigned, ⟨none,0,none⟩, [], 0⟩ buf = some (1,p) ∧ p.message = m := by
  unfold publishOf
  constructor
  · intro h
    obtain ⟨⟨ok,p⟩,hp,h⟩ := Option.bind_eq_some_iff.mp h
    split_ifs at h with hok
    obtain rfl : ok = 1 := hok
    exact ⟨p, hp, Option.some.inj h⟩
  · rintro ⟨p,hp,rfl⟩
    rw [hp]
    rfl

theorem publishOf_type {around : Around} {buf : List UInt8} {m : MqttMessage}
    (h : publishOf around buf = some m) : packetTypeOf (some buf) = MsgType.publish.code := by
  obtain ⟨p,hp,-⟩ := publishOf_eq_some_iff.mp h
  unfold deserializePublish at hp
  obtain ⟨⟨byte,n⟩,hread,hp⟩ := Option.bind_eq_some_iff.mp hp
  have hbyte : buf.headD 0 = byte := by
    obtain ⟨b,hb,hpair⟩ := Option.map_eq_some_iff.mp hread
    obtain ⟨rfl,-⟩ := Prod.mk.inj hpair
    cases buf with
    | nil => contradiction
    | cons b' bs => exact Option.some.inj hb
  rw [packetTypeOf, hbyte]
  by_contra htype
  dsimp only at hp
  rw [if_pos htype] at hp
  exact absurd (Prod.mk.inj (Option.some.inj hp)).1 (by decide)

/-- What `mqtt_keep_alive` sends is no message for the application. -/
theorem keepAlive_out {c : Client} {around : Around} {r : Returned}
    (h : mqttKeepAlive c around = .ok r) (handler : MessageHandler) (data : MessageData) :
    .delivered handler data ∉ r.out := by
  unfold mqttKeepAlive at h
  split_ifs at h
  · obtain rfl := Except.ok.inj h
    exact List.not_mem_nil
  · obtain rfl := Except.ok.inj h
    exact List.not_mem_nil
  · obtain rfl := Except.ok.inj h
    exact List.not_mem_nil
  · obtain ⟨⟨len,buf⟩,-,h⟩ := (bind_eq_ok_iff _ _ _).mp h
    dsimp only at h
    split_ifs at h
    · obtain rfl := Except.ok.inj h
      unfold sentOf
      split_ifs <;> simp
    · obtain rfl := Except.ok.inj h
      exact List.not_mem_nil

/-- A PUBLISH with QoS 2 that reaches a handler was not on the list; with memory it is now. -/
theorem qos2_delivered {signed : Bool} {c : Client} {around : Around} {buf : List UInt8}
    {r : Returned} {m : MqttMessage} {handler : MessageHandler} {data : MessageData}
    (h : perform signed c (.packet around (some buf)) = .ok r)
    (hm : publishOf around buf = some m) (hqos : m.qos = 2)
    (hdelivered : .delivered handler data ∈ r.out) :
    (MsgType.pubrel.code,m.id) ∉ c.ackHandlerList.map AckHandlers.key ∧
    (around.ackMemory = true →
      (MsgType.pubrel.code,m.id) ∈ r.client.ackHandlerList.map AckHandlers.key) := by
  have htype := publishOf_type hm
  obtain ⟨p,hp,rfl⟩ := publishOf_eq_some_iff.mp hm
  rcases packetHandle_ok h with rfl | ⟨d,out,s,hd,hs,hclient,hout⟩
  · exact absurd hdelivered List.not_mem_nil
  · rw [hout] at hdelivered
    have hdelivered : .delivered handler data ∈ out :=
      (List.mem_append.mp hdelivered).resolve_right (keepAlive_out hs handler data)
    rw [hclient, (keepAlive_ok hs).1]
    cases hd with
    | idle => exact absurd hdelivered List.not_mem_nil
    | pingresp => exact absurd hdelivered List.not_mem_nil
    | puback buf r' htype' =>
      rw [htype] at htype'
      exact absurd htype' (by decide)
    | suback buf r' htype' =>
      rw [htype] at htype'
      exact absurd htype' (by decide)
    | unsuback buf r' htype' =>
      rw [htype] at htype'
      exact absurd htype' (by decide)
    | pubrec buf r' htype' =>
      rw [htype] at htype'
      exact absurd htype' (by decide)
    | publish buf r' htype' hpub =>
      cases hpub with
      | refused => exact absurd hdelivered List.not_mem_nil
      | passedOn p' writeBuf len r'' hconn hp' hr sent hsent =>
        obtain rfl : p = p' := (Prod.mk.inj (Option.some.inj (hp.symm.trans hp'))).2
        have hne : p.qos ≠ 0 := by
          change p.qos = 2 at hqos
          rw [hqos]
          decide
        rw [(hsent hne).2] at hdelivered
        have hdelivered : .delivered handler data ∈ r''.out := by
          rcases List.mem_append.mp hdelivered with hin | hin
          · exact absurd (List.mem_singleton.mp hin) (by simp)
          · exact hin
        cases hr with
        | plain hplain => exact absurd hqos hplain
        | again => exact absurd hdelivered List.not_mem_nil
        | first _ c' rc rc' out hmem hrec =>
          refine ⟨hmem, fun hmemory => ?_⟩
          cases hrec with
          | isExist hmem' => exact absurd hmem' hmem
          | noMemory _ hnone =>
            rw [hmemory] at hnone
            contradiction
          | added _ _ payload hpayload =>
            change _ ∈ (_ ++ [_]).map AckHandlers.key
            rw [List.map_append]
            exact List.mem_append_right _ (List.mem_singleton.mpr rfl)

/-- A message with QoS 2 that a handler has got, and for whose record there was memory, is
not given to a handler again, however often its packet comes, until its PUBREL comes or the
session is cleaned: in any order of calls, one at a time, up to one that would use a dangling
handler or leave a buffer. -/
theorem qos2_delivered_once (signed : Bool) (c : Client) (around : Around) (buf : List UInt8)
    (r : Returned) (m : MqttMessage) (handler : MessageHandler) (data : MessageData)
    (h : perform signed c (.packet around (some buf)) = .ok r)
    (hm : publishOf around buf = some m) (hqos : m.qos = 2)
    (hdelivered : .delivered handler data ∈ r.out) (hmemory : around.ackMemory = true)
    (calls : List Call) (d : Client) (hrun : run (step signed) r.client calls = some d)
    (hopen : Meets (step signed) (fun s call =>
      ¬ call.Settles signed s (MsgType.pubrel.code, m.id) ∧
      ¬ (call = .cleanSession ∧ s.clientState = .cleanSession)) r.client calls)
    (around' : Around) (buf' : List UInt8) (r' : Returned) (m' : MqttMessage)
    (h' : perform signed d (.packet around' (some buf')) = .ok r')
    (hm' : publishOf around' buf' = some m') (hqos' : m'.qos = 2) (hid : m'.id = m.id)
    (handler' : MessageHandler) (data' : MessageData) : .delivered handler' data' ∉ r'.out := by
  intro hagain
  have hnot := (qos2_delivered h' hm' hqos' hagain).1
  obtain ⟨a,ha,hkey⟩ := List.mem_map.mp ((qos2_delivered h hm hqos hdelivered).2 hmemory)
  apply hnot
  rw [hid, ← hkey]
  apply List.mem_map_of_mem
  apply resent_kept (.inr (.inr (.inl (Prod.mk.inj hkey).1))) ha _ hrun
  rw [hkey]
  exact hopen

/-- A packet comes, comes again, and comes once more with its DUP bit set. -/
theorem qos2_delivered_once_of_three : ∃ r d r',
    perform true { Client.online (List.replicate 32 0) with interceptorHandler := some (.application 0) }
      (.packet .calm (some [52,6,0,1,97,0,5,33,0])) = .ok r ∧
    run (step true) r.client [.packet .calm (some [52,6,0,1,97,0,5,33,0])] = some d ∧
    perform true d (.packet .calm (some [60,6,0,1,97,0,5,33,0])) = .ok r' ∧
    ∀ data, .delivered (.application 0) data ∉ r'.out := by
  have hfirst : (perform true { Client.online (List.replicate 32 0) with
        interceptorHandler := some (.application 0) }
      (.packet .calm (some [52,6,0,1,97,0,5,33,0]))).toOption.map (fun r =>
        (decide (.delivered (.application 0) ⟨[97], ⟨2, 0, 0, 5, 1, some [33,0]⟩⟩ ∈ r.out),
        (run (step true) r.client [.packet .calm (some [52,6,0,1,97,0,5,33,0])]).map fun d =>
          (perform true d (.packet .calm (some [60,6,0,1,97,0,5,33,0]))).toOption.isSome)) =
      some (true, some true) := by decide +kernel
  obtain ⟨r,hr,hpair⟩ := ok_of_map hfirst
  obtain ⟨hdelivered,hrest⟩ := Prod.mk.inj hpair
  obtain ⟨d,hd,hlast⟩ := Option.map_eq_some_iff.mp hrest
  obtain ⟨r',hr'⟩ := Option.isSome_iff_exists.mp hlast
  have hok : perform true d (.packet .calm (some [60,6,0,1,97,0,5,33,0])) = .ok r' := by
    cases hx : perform true d (.packet .calm (some [60,6,0,1,97,0,5,33,0])) with
    | error e =>
      rw [hx] at hr'
      contradiction
    | ok x =>
      rw [hx] at hr'
      exact congrArg Except.ok (Option.some.inj hr')
  refine ⟨r, d, r', hr, hd, hok, fun data => ?_⟩
  have hm : publishOf .calm [52,6,0,1,97,0,5,33,0] = some ⟨2, 0, 0, 5, 1, some [33,0]⟩ := by
    decide +kernel
  have hm' : publishOf .calm [60,6,0,1,97,0,5,33,0] = some ⟨2, 0, 1, 5, 1, some [33,0]⟩ := by
    decide +kernel
  apply qos2_delivered_once true _ .calm _ r _ (.application 0) _ hr hm rfl
    (of_decide_eq_true hdelivered) rfl _ d hd ⟨⟨?_, fun h => absurd h.1 (by simp)⟩, fun _ _ => trivial⟩
    .calm _ r' _ hok hm' rfl rfl
  rintro ⟨-,buf,hbuf,hack⟩
  obtain rfl := Option.some.inj hbuf
  have hnone : ackOf true .calm [52,6,0,1,97,0,5,33,0] = none := by decide +kernel
  rw [hnone] at hack
  contradiction

end CppOperate.Mqtt
