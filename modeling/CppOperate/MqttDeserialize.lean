import CppOperate.MqttSerialize
import Mathlib

/-! The packets of `mqtt/`, from bytes to their fields. The functions return a code and
the caller's variables, of which only those that were reached have changed; none of
them looks at `buflen`. -/
namespace CppOperate.Mqtt
open ByteMemory CStrings WireFormats

/-- Where a packet of the given bytes has its parts. -/
theorem frame_reads (header : MqttHeader) (body rest : List UInt8) (hlen : body.length < 2^28) :
    readChar (frame header body ++ rest) 0 = some (header.byte,1) ∧
    packetDecodeBuf (frame header body ++ rest) 1 =
      some ((base128 body.length).length, body.length) ∧
    (frame header body ++ rest).drop (1+(base128 body.length).length) = body ++ rest := by
  have hdrop : (frame header body ++ rest).drop 1 = base128 body.length ++ (body ++ rest) := by
    rw [← List.append_assoc]
    rfl
  refine ⟨rfl, packetDecodeBuf_of_drop _ _ _ _ hlen hdrop, drop_add_length _ _ _ _ hdrop⟩

/-- The variables `MQTTDeserialize_publish` fills. -/
structure PublishOut where
  dup : UInt8
  qos : ℤ
  retained : UInt8
  packetid : UInt16
  topicName : MqttString
  payload : List UInt8
  payloadlen : ℤ

/-- `*dup`, `*qos` and `*retained` from the header. -/
def PublishOut.setHeader (out : PublishOut) (header : MqttHeader) : PublishOut :=
  { out with
    dup := UInt8.ofNat header.dup.toNat
    qos := header.qos.toNat
    retained := UInt8.ofNat header.retain.toNat }

def deserializePublish (out : PublishOut) (buf : List UInt8) : Option (ℤ × PublishOut) := do
  let (byte,curdata) ← readChar buf 0
  let header := MqttHeader.ofByte byte
  if header.type.toNat ≠ MsgType.publish.code then return (0,out)
  let out := out.setHeader header
  let (rc,mylen) ← packetDecodeBuf buf curdata
  let curdata := curdata+rc
  let enddata := curdata+mylen
  let (ok,topicName,curdata) ← readMqttLenString out.topicName buf curdata enddata
  let out := { out with topicName }
  if ok = false ∨ (enddata:ℤ)-curdata < 0 then return (rc,out)
  let (packetid,curdata) ← (if 0 < out.qos then
      (readInt buf curdata).map fun r => (UInt16.ofNat r.1, r.2)
    else some (out.packetid,curdata) : Option (UInt16 × ℕ))
  return (1, { out with packetid, payload := buf.drop curdata, payloadlen := (enddata:ℤ)-curdata })

structure AckOut where
  packettype : ℕ
  dup : UInt8
  packetid : UInt16
deriving DecidableEq, Repr

def deserializeAck (out : AckOut) (buf : List UInt8) : Option (ℤ × AckOut) := do
  let (byte,curdata) ← readChar buf 0
  let header := MqttHeader.ofByte byte
  let out := { out with dup := UInt8.ofNat header.dup.toNat, packettype := header.type.toNat }
  let (rc,mylen) ← packetDecodeBuf buf curdata
  let curdata := curdata+rc
  let enddata := curdata+mylen
  if (enddata:ℤ)-curdata < 2 then return (rc,out)
  let (packetid,_) ← readInt buf curdata
  return (1, { out with packetid := UInt16.ofNat packetid })

def deserializeUnsuback (packetid : UInt16) (buf : List UInt8) : Option (ℤ × UInt16) := do
  let (rc,out) ← deserializeAck ⟨0,0,packetid⟩ buf
  return (if out.packettype = MsgType.unsuback.code then 1 else rc, out.packetid)

structure ConnackOut where
  sessionPresent : UInt8
  connackRc : UInt8
deriving DecidableEq, Repr

def deserializeConnack (out : ConnackOut) (buf : List UInt8) : Option (ℤ × ConnackOut) := do
  let (byte,curdata) ← readChar buf 0
  let header := MqttHeader.ofByte byte
  if header.type.toNat ≠ MsgType.connack.code then return (0,out)
  let (rc,mylen) ← packetDecodeBuf buf curdata
  let curdata := curdata+rc
  let enddata := curdata+mylen
  if (enddata:ℤ)-curdata < 2 then return (rc,out)
  let (flags,curdata) ← readChar buf curdata
  let (connackRc,_) ← readChar buf curdata
  return (1, ⟨connackFlags flags, connackRc⟩)

/-- `char` to `int`, for either signedness `char` has on the targets. -/
def charToInt (signed : Bool) (c : UInt8) : ℤ := if signed then c.toInt8.toInt else c.toNat

structure SubackOut where
  packetid : UInt16
  count : ℤ
  grantedQoSs : List ℤ

/-- The loop of `MQTTDeserialize_suback` with `left` bytes before `enddata`. -/
def subackCodes (signed : Bool) (maxcount : ℤ) (buf : List UInt8) :
    (left curdata count : ℕ) → List ℤ → Option (ℤ × ℕ × List ℤ)
  | 0, _, count, grantedQoSs => some (1,count,grantedQoSs)
  | left+1, curdata, count, grantedQoSs =>
    if maxcount < count then some (-1,count,grantedQoSs)
    else do
      let (c,curdata) ← readChar buf curdata
      let grantedQoSs ← writeAt grantedQoSs count [charToInt signed c]
      subackCodes signed maxcount buf left curdata (count+1) grantedQoSs

def deserializeSuback (signed : Bool) (maxcount : ℤ) (out : SubackOut) (buf : List UInt8) :
    Option (ℤ × SubackOut) := do
  let (byte,curdata) ← readChar buf 0
  let header := MqttHeader.ofByte byte
  if header.type.toNat ≠ MsgType.suback.code then return (0,out)
  let (rc,mylen) ← packetDecodeBuf buf curdata
  let curdata := curdata+rc
  let enddata := curdata+mylen
  if (enddata:ℤ)-curdata < 2 then return (rc,out)
  let (packetid,curdata) ← readInt buf curdata
  let (rc,count,grantedQoSs) ←
    subackCodes signed maxcount buf (enddata-curdata) curdata 0 out.grantedQoSs
  return (rc, ⟨UInt16.ofNat packetid, count, grantedQoSs⟩)

theorem readMqttLenString_le (s s' : MqttString) (buf : List UInt8) (pptr enddata ptr : ℕ)
    (h : readMqttLenString s buf pptr enddata = some (true,s',ptr)) : pptr+2 ≤ ptr := by
  unfold readMqttLenString at h
  split_ifs at h with hlen
  · obtain ⟨⟨n,p⟩,hint,hrest⟩ := Option.bind_eq_some_iff.mp h
    have hp : p = pptr+2 := by
      unfold readInt at hint
      obtain ⟨hi,-,hhi⟩ := Option.bind_eq_some_iff.mp hint
      obtain ⟨lo,-,hlo⟩ := Option.bind_eq_some_iff.mp hhi
      exact (Prod.mk.inj (Option.some.inj hlo)).2.symm
    simp only at hrest
    split_ifs at hrest with hle
    · obtain ⟨-,-,rfl⟩ : true = true ∧ _ ∧ p+n = ptr := by simpa using Option.some.inj hrest
      omega
    · simp at hrest
  · simp at h

/-- The arrays and counters of `MQTTDeserialize_subscribe`. -/
structure SubscribeOut where
  dup : UInt8
  packetid : UInt16
  count : ℕ
  topicFilters : List MqttString
  requestedQoSs : List ℤ

/-- The loop of `MQTTDeserialize_subscribe`: whether it reached `enddata`. -/
def subscribeFilters (signed : Bool) (buf : List UInt8) (enddata curdata : ℕ)
    (out : SubscribeOut) : Option (Bool × SubscribeOut) :=
  if curdata < enddata then
    match out.topicFilters[out.count]? with
    | none => none
    | some s =>
      match _hread : readMqttLenString s buf curdata enddata with
      | none => none
      | some (false,s,_) =>
        some (false, { out with topicFilters := out.topicFilters.set out.count s })
      | some (true,s,next) =>
        let out := { out with topicFilters := out.topicFilters.set out.count s }
        if enddata ≤ next then some (false,out)
        else
          match readChar buf next with
          | none => none
          | some (c,_) =>
            match writeAt out.requestedQoSs out.count [charToInt signed c] with
            | none => none
            | some requestedQoSs =>
              subscribeFilters signed buf enddata (next+1)
                { out with requestedQoSs, count := out.count+1 }
  else some (true,out)
termination_by enddata-curdata
decreasing_by
  have hle := readMqttLenString_le _ _ _ _ _ _ (by assumption)
  omega

/-- One round of the loop for a filter that is complete. -/
theorem subscribeFilters_step (signed : Bool) (buf : List UInt8) (enddata curdata next : ℕ)
    (out : SubscribeOut) (s s' : MqttString) (c : UInt8) (qoss : List ℤ)
    (hget : out.topicFilters[out.count]? = some s)
    (hread : readMqttLenString s buf curdata enddata = some (true,s',next))
    (hnext : next < enddata) (hchar : readChar buf next = some (c,next+1))
    (hwrite : writeAt out.requestedQoSs out.count [charToInt signed c] = some qoss) :
    subscribeFilters signed buf enddata curdata out =
      subscribeFilters signed buf enddata (next+1)
        ⟨out.dup, out.packetid, out.count+1, out.topicFilters.set out.count s', qoss⟩ := by
  have hle := readMqttLenString_le _ _ _ _ _ _ hread
  rw [subscribeFilters, if_pos (by omega)]
  simp only [hget]
  split
  · rename_i hnone
    rw [hread] at hnone
    contradiction
  · rename_i hfalse
    rw [hread] at hfalse
    simp at hfalse
  · rename_i htrue
    rw [hread] at htrue
    obtain ⟨rfl,rfl⟩ := Prod.mk.inj (Prod.mk.inj (Option.some.inj htrue)).2
    simp only [if_neg (show ¬ enddata ≤ next by omega), hchar, hwrite]

def deserializeSubscribe (signed : Bool) (out : SubscribeOut) (buf : List UInt8) :
    Option (ℤ × SubscribeOut) := do
  let (byte,curdata) ← readChar buf 0
  let header := MqttHeader.ofByte byte
  if header.type.toNat ≠ MsgType.subscribe.code then return (-1,out)
  let out := { out with dup := UInt8.ofNat header.dup.toNat }
  let (rc,mylen) ← packetDecodeBuf buf curdata
  let curdata := curdata+rc
  let enddata := curdata+mylen
  let (packetid,curdata) ← readInt buf curdata
  let (done,out) ← subscribeFilters signed buf enddata curdata
    { out with packetid := UInt16.ofNat packetid, count := 0 }
  return (if done then 1 else rc, out)

structure UnsubscribeOut where
  dup : UInt8
  packetid : UInt16
  count : ℕ
  topicFilters : List MqttString

/-- The loop of `MQTTDeserialize_unsubscribe`: whether it reached `enddata`. -/
def unsubscribeFilters (buf : List UInt8) (enddata curdata : ℕ) (out : UnsubscribeOut) :
    Option (Bool × UnsubscribeOut) :=
  if curdata < enddata then
    match out.topicFilters[out.count]? with
    | none => none
    | some s =>
      match _hread : readMqttLenString s buf curdata enddata with
      | none => none
      | some (false,s,_) =>
        some (false, { out with topicFilters := out.topicFilters.set out.count s })
      | some (true,s,next) =>
        unsubscribeFilters buf enddata next
          { out with topicFilters := out.topicFilters.set out.count s, count := out.count+1 }
  else some (true,out)
termination_by enddata-curdata
decreasing_by
  have hle := readMqttLenString_le _ _ _ _ _ _ (by assumption)
  omega

theorem unsubscribeFilters_step (buf : List UInt8) (enddata curdata next : ℕ)
    (out : UnsubscribeOut) (s s' : MqttString) (hlt : curdata < enddata)
    (hget : out.topicFilters[out.count]? = some s)
    (hread : readMqttLenString s buf curdata enddata = some (true,s',next)) :
    unsubscribeFilters buf enddata curdata out = unsubscribeFilters buf enddata next
      ⟨out.dup, out.packetid, out.count+1, out.topicFilters.set out.count s'⟩ := by
  rw [unsubscribeFilters, if_pos hlt]
  simp only [hget]
  split
  · rename_i hnone
    rw [hread] at hnone
    contradiction
  · rename_i hfalse
    rw [hread] at hfalse
    simp at hfalse
  · rename_i htrue
    rw [hread] at htrue
    obtain ⟨rfl,rfl⟩ := Prod.mk.inj (Prod.mk.inj (Option.some.inj htrue)).2
    rfl

def deserializeUnsubscribe (out : UnsubscribeOut) (buf : List UInt8) :
    Option (ℤ × UnsubscribeOut) := do
  let (byte,curdata) ← readChar buf 0
  let header := MqttHeader.ofByte byte
  if header.type.toNat ≠ MsgType.unsubscribe.code then return (0,out)
  let out := { out with dup := UInt8.ofNat header.dup.toNat }
  let (rc,mylen) ← packetDecodeBuf buf curdata
  let curdata := curdata+rc
  let enddata := curdata+mylen
  let (packetid,curdata) ← readInt buf curdata
  let (done,out) ← unsubscribeFilters buf enddata curdata
    { out with packetid := UInt16.ofNat packetid, count := 0 }
  return (if done then 1 else rc, out)

end CppOperate.Mqtt
