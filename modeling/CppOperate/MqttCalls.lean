import CppOperate.MqttClient
import Mathlib

/-! The calls of the client: what the application asks for, what the thread does with a
packet it has read, with acknowledgements that are overdue and with a lost connection. -/
namespace CppOperate.Mqtt
open ByteMemory CNumbers CStrings

section Calls
variable (c : Client) (around : Around)

/-- `mqtt_ack_handler_resend`. -/
def ackHandlerResend (a : AckHandlers) (sends : Bool) :
    Except ClientFault (Client × List Output) := do
  let buf ← inside (writeAt c.writeBuf 0 a.payload)
  return (c.withBuf buf, sentOf sends buf a.payload.length)

/-- What is resent when its time is over. -/
def Resent (type : ℕ) : Prop :=
  type = MsgType.puback.code ∨ type = MsgType.pubrec.code ∨ type = MsgType.pubrel.code ∨
    type = MsgType.pubcomp.code

instance (type : ℕ) : Decidable (Resent type) := by
  unfold Resent
  infer_instance

/-- `mqtt_ack_list_scan`: `flag` 1 leaves the ack handlers alone whose time is not over. -/
structure Scan where
  flag : Bool
  expired : AckHandlers → Bool
  resends : AckHandlers → Bool

/-- The loop of `mqtt_ack_list_scan`, with the ack handlers it leaves. -/
def ackListScanLoop (scan : Scan) (c : Client) :
    List AckHandlers → Except ClientFault (List AckHandlers × Client × List Output)
  | [] => .ok ([],c,[])
  | a :: as =>
    if scan.expired a = false ∧ scan.flag = true then do
      let (rest,c,out) ← ackListScanLoop scan c as
      return (a :: rest, c, out)
    else if Resent a.type then do
      let (c,sent) ← ackHandlerResend c a (scan.resends a)
      let (rest,c,out) ← ackListScanLoop scan c as
      return (a :: rest, c, sent ++ out)
    else do
      let c ← (if a.type = MsgType.suback.code ∨ a.type = MsgType.unsuback.code then
          destroyHandlers c [a]
        else .ok c : Except ClientFault Client)
      ackListScanLoop scan { c with ackHandlerNumber := c.ackHandlerNumber-1 } as

def ackListScan (scan : Scan) : Except ClientFault (Client × List Output) :=
  if c.ackHandlerList = [] ∨ c.clientState ≠ .connected then .ok (c,[])
  else do
    let (rest,c,out) ← ackListScanLoop scan c c.ackHandlerList
    return ({ c with ackHandlerList := rest }, out)

def mqttSubscribe (topicFilter : CString) (qos : ℤ) (handler : Option MessageHandler) :
    Except ClientFault Returned :=
  if c.clientState ≠ .connected then .ok ⟨c, mqttNotConnectError, []⟩
  else do
    let c := getNextPacketId c
    let (len,buf) ← inside (serializeSubscribe c.writeBuf c.writeBuf.length 0 c.packetId 1
      [MqttString.ofC topicFilter] [qos])
    let c := c.withBuf buf
    if len ≤ 0 then return ⟨c, mqttSubscribeError, []⟩
    if around.sends = false then return ⟨c, mqttSendPacketError, []⟩
    let out := sentOf around.sends buf len
    match msgHandlerCreate c around topicFilter qos (handler.getD .defaultMsgHandler) with
    | (c,none) => return ⟨c, mqttMemNotEnoughError, out⟩
    | (c,some p) =>
      let (c,rc) ← ackListRecord c around .suback c.packetId len (some p)
      return ⟨c,rc,out⟩

def mqttUnsubscribe (topicFilter : CString) : Except ClientFault Returned :=
  if c.clientState ≠ .connected then .ok ⟨c, mqttNotConnectError, []⟩
  else do
    let c := getNextPacketId c
    let (len,buf) ← inside (serializeUnsubscribe c.writeBuf c.writeBuf.length 0 c.packetId 1
      [MqttString.ofC topicFilter])
    let c := c.withBuf buf
    if len ≤ 0 then return ⟨c, mqttFailedError, []⟩
    if around.sends = false then return ⟨c, mqttSendPacketError, []⟩
    let out := sentOf around.sends buf len
    match ← getMsgHandler c (MqttString.ofC topicFilter) with
    | none => return ⟨c, mqttMemNotEnoughError, out⟩
    | some p =>
      let (c,rc) ← ackListRecord c around .unsuback c.packetId len (some p)
      return ⟨c,rc,out⟩

/-- What is recorded of a PUBLISH of this QoS, with the packet in the write buffer. -/
def recordPublish (qos : ℤ) (id : UInt16) (len : ℤ) : Except ClientFault (Client × ℤ) :=
  if qos = 0 then .ok (c, mqttSuccessError)
  else do
    let (c,_) ← setPublishDup c 1
    if qos = 1 then ackListRecord c around .puback id len none
    else if qos = 2 then ackListRecord c around .pubrec id len none
    else return (c, mqttSuccessError)

/-- `mqtt_publish` with the id of its packet. -/
def publishWith (topicFilter : CString) (msg : MqttMessage) (id : UInt16) (payloadlen : ℕ) :
    Except ClientFault Returned := do
  let (len,buf) ← inside (serializePublish c.writeBuf c.writeBuf.length 0 msg.qos msg.retained
    id (MqttString.ofC topicFilter) (msg.payload.getD []) payloadlen)
  let c := c.withBuf buf
  if len ≤ 0 then return ⟨c, mqttFailedError, []⟩
  if around.sends = false then return ⟨c, mqttSendPacketError, []⟩
  let (c,rc) ← recordPublish c around msg.qos id len
  return ⟨c, rc, sentOf around.sends buf len⟩

/-- `mqtt_publish` while it holds the lock. -/
def publishLocked (topicFilter : CString) (msg : MqttMessage) (payloadlen : ℕ) :
    Except ClientFault Returned :=
  if msg.qos = 0 then publishWith c around topicFilter msg msg.id payloadlen
  else if ackHandlerIsMaximum c = true then .ok ⟨c, mqttAckHandlerNumTooMuchError, []⟩
  else
    let c := getNextPacketId c
    publishWith c around topicFilter msg c.packetId payloadlen

def mqttPublish (topicFilter : CString) (msg : MqttMessage) : Except ClientFault Returned :=
  if c.clientState ≠ .connected then .ok ⟨c, mqttNotConnectError, []⟩
  else do
    let payloadlen ← (match msg.payload with
      | some mem => if msg.payloadlen = 0 then inside (strlen mem) else .ok msg.payloadlen
      | none => .ok msg.payloadlen : Except ClientFault ℕ)
    if c.writeBuf.length < payloadlen then return ⟨c, mqttBufferTooShortError, []⟩
    let r ← publishLocked c around topicFilter msg payloadlen
    if r.rc = mqttAckHandlerNumTooMuchError ∨ r.rc = mqttMemNotEnoughError then
      return { r with client := { r.client with clientState := .disconnected } }
    else return r

def mqttDisconnect : Except ClientFault Returned := do
  let (len,buf) ← inside (serializeDisconnect c.writeBuf c.writeBuf.length)
  let c := { c.withBuf buf with clientState := .cleanSession }
  if 0 < len then return ⟨c, sendPacketRc around.sends, sentOf around.sends buf len⟩
  else return ⟨c, mqttFailedError, []⟩

def publishAckPacket (packetId : UInt16) (packetType : ℕ) : Except ClientFault Returned :=
  if packetType = MsgType.pubrec.code then do
    let (len,buf) ← inside (serializeAck c.writeBuf c.writeBuf.length .pubrel 0 packetId)
    let (c,rc) ← ackListRecord (c.withBuf buf) around .pubcomp packetId len none
    if rc ≠ mqttSuccessError then return ⟨c, rc, []⟩
    if len ≤ 0 then return ⟨c, mqttPublishAckPacketError, []⟩
    return ⟨c, sendPacketRc around.sends, sentOf around.sends buf len⟩
  else if packetType = MsgType.pubrel.code then do
    let (len,buf) ← inside (serializeAck c.writeBuf c.writeBuf.length .pubcomp 0 packetId)
    let c := c.withBuf buf
    if len ≤ 0 then return ⟨c, mqttPublishAckPacketError, []⟩
    return ⟨c, sendPacketRc around.sends, sentOf around.sends buf len⟩
  else .ok ⟨c, mqttPublishAckTypeError, []⟩

/-- A packet that is too short is answered with whatever the two variables hold. -/
def pubackAndPubcompPacketHandle (buf : List UInt8) : Except ClientFault Returned :=
  if mqttIsConnected c ≠ mqttSuccessError then .ok ⟨c, mqttIsConnected c, []⟩
  else do
    let (_,ack) ← inside (deserializeAck ⟨0, 0, around.unassigned⟩ buf)
    return ⟨(ackListUnrecord c ack.packettype ack.packetid).1, mqttSuccessError, []⟩

def subackPacketHandle (signed : Bool) (buf : List UInt8) : Except ClientFault Returned :=
  if mqttIsConnected c ≠ mqttSuccessError then .ok ⟨c, mqttIsConnected c, []⟩
  else do
    let (ok,suback) ← inside (deserializeSuback signed 1 ⟨around.unassigned, 0, [0]⟩ buf)
    if ok ≠ 1 then return ⟨c, mqttSubscribeAckPacketError, []⟩
    let isNack := decide (suback.grantedQoSs.headD 0 = 128)
    let (c,handler) := ackListUnrecord c MsgType.suback.code suback.packetid
    match handler.getD none with
    | none => return ⟨c, mqttMemNotEnoughError, []⟩
    | some p =>
      if isNack then
        let c ← msgHandlerDestory c p
        return ⟨c, mqttSubscribeNotAckError, []⟩
      else
        let (c,rc) ← msgHandlersInstall c p
        return ⟨c,rc,[]⟩

/-- If no ack handler has the packet id, `msg_handler` was never assigned. -/
def unsubackPacketHandle (buf : List UInt8) : Except ClientFault Returned :=
  if mqttIsConnected c ≠ mqttSuccessError then .ok ⟨c, mqttIsConnected c, []⟩
  else do
    let (ok,packetId) ← inside (deserializeUnsuback 0 buf)
    if ok ≠ 1 then return ⟨c, mqttUnsubscribeAckPacketError, []⟩
    let (c,handler) := ackListUnrecord c MsgType.unsuback.code packetId
    match handler with
    | none => .error .dangling
    | some none => return ⟨c, mqttMemNotEnoughError, []⟩
    | some (some p) =>
      let c ← msgHandlerDestory c p
      return ⟨c, mqttSuccessError, []⟩

/-- The answer to a PUBLISH: its length, and what is in the write buffer. -/
def publishAnswer (qos : ℤ) (id : UInt16) : Except ClientFault (ℤ × List UInt8) :=
  if qos = 1 then inside (serializeAck c.writeBuf c.writeBuf.length .puback 0 id)
  else if qos = 2 then inside (serializeAck c.writeBuf c.writeBuf.length .pubrec 0 id)
  else .ok (0, c.writeBuf)

/-- What `mqtt_publish_packet_handle` does with a message once it is answered. -/
def publishReceived (topicName : MqttString) (message : MqttMessage) (len : ℤ) :
    Except ClientFault Returned :=
  if message.qos ≠ 2 then do
    let (_,out) ← deliverMessage c topicName message
    return ⟨c, mqttSuccessError, out⟩
  else do
    let (c,rc) ← ackListRecord c around .pubrel message.id len none
    if rc = mqttAckNodeIsExistError then return ⟨c,rc,[]⟩
    let (_,out) ← deliverMessage c topicName message
    return ⟨c,rc,out⟩

/-- The message of a PUBLISH. Its length is stored through an `int *` into the low half of
`msg.payloadlen`, which was 0, so a negative one becomes large. -/
def PublishOut.message (p : PublishOut) : MqttMessage :=
  ⟨p.qos, p.retained, p.dup, p.packetid, (uint32 p.payloadlen).toNat, some p.payload⟩

def publishPacketHandle (buf : List UInt8) : Except ClientFault Returned :=
  if mqttIsConnected c ≠ mqttSuccessError then .ok ⟨c, mqttIsConnected c, []⟩
  else do
    let (ok,p) ← inside (deserializePublish
      ⟨0, 0, 0, around.unassigned, ⟨none,0,none⟩, [], 0⟩ buf)
    if ok ≠ 1 then return ⟨c, mqttPublishPacketError, []⟩
    if p.qos = 0 then publishReceived c around p.topicName p.message 0
    else
      let (len,writeBuf) ← publishAnswer c p.qos p.packetid
      let c := c.withBuf writeBuf
      if len ≤ 0 then return ⟨c, mqttSerializePublishAckPacketError, []⟩
      if around.sends = false then return ⟨c, mqttSendPacketError, []⟩
      let r ← publishReceived c around p.topicName p.message len
      return { r with out := sentOf around.sends writeBuf len ++ r.out }

def pubrecAndPubrelPacketHandle (buf : List UInt8) : Except ClientFault Returned :=
  if mqttIsConnected c ≠ mqttSuccessError then .ok ⟨c, mqttIsConnected c, []⟩
  else do
    let (ok,ack) ← inside (deserializeAck ⟨0, 0, around.unassigned⟩ buf)
    if ok ≠ 1 then return ⟨c, mqttPubrecPacketError, []⟩
    let r ← publishAckPacket c around ack.packetid ack.packettype
    return ⟨(ackListUnrecord r.client ack.packettype ack.packetid).1, mqttSuccessError, r.out⟩

def mqttKeepAlive : Except ClientFault Returned :=
  if mqttIsConnected c ≠ mqttSuccessError then .ok ⟨c, mqttIsConnected c, []⟩
  else if around.idle = false then .ok ⟨c, mqttSuccessError, []⟩
  else if c.pingOutstanding ≠ 0 then
    .ok ⟨{ c with clientState := .disconnected }, mqttNotConnectError, []⟩
  else do
    let (len,buf) ← inside (serializePingreq c.writeBuf c.writeBuf.length)
    let c := { c.withBuf buf with pingOutstanding := (c.pingOutstanding+1)%4 }
    if 0 < len then return ⟨c, sendPacketRc around.pings, sentOf around.pings buf len⟩
    else return ⟨c, mqttSuccessError, []⟩

/-- `packet_type` after `mqtt_read_packet`, which leaves 0 when it fails. -/
def packetTypeOf : Option (List UInt8) → ℕ
  | none => 0
  | some buf => (MqttHeader.ofByte (buf.headD 0)).type.toNat

/-- The `switch` of `mqtt_packet_handle`: `none` for `goto exit`. -/
def packetSwitch (signed : Bool) (received : Option (List UInt8)) :
    Except ClientFault (Option (Client × List Output)) :=
  let type := packetTypeOf received
  let buf := received.getD []
  let after (r : Except ClientFault Returned) := r.map fun r => some (r.client,r.out)
  if type = 0 then .ok (some (c,[]))
  else if type = MsgType.puback.code ∨ type = MsgType.pubcomp.code then
    after (pubackAndPubcompPacketHandle c around buf)
  else if type = MsgType.suback.code then after (subackPacketHandle c around signed buf)
  else if type = MsgType.unsuback.code then after (unsubackPacketHandle c buf)
  else if type = MsgType.publish.code then after (publishPacketHandle c around buf)
  else if type = MsgType.pubrec.code ∨ type = MsgType.pubrel.code then
    after (pubrecAndPubrelPacketHandle c around buf)
  else if type = MsgType.pingresp.code then .ok (some ({ c with pingOutstanding := 0 }, []))
  else .ok none

/-- The result of the handler is not used: what `mqtt_keep_alive` returns replaces it. -/
def packetHandle (signed : Bool) (received : Option (List UInt8)) :
    Except ClientFault Returned := do
  match ← packetSwitch c around signed received with
  | none => return ⟨c, packetTypeOf received, []⟩
  | some (c,out) =>
    let r ← mqttKeepAlive c around
    return ⟨r.client, if r.rc = mqttSuccessError then packetTypeOf received else r.rc, out ++ r.out⟩

end Calls

/-- `mqtt_wait_packet`, with what each pass of its loop meets until its timer has expired:
the packet read last is in the read buffer. -/
def waitPacket (signed : Bool) (packetType : ℕ) (c : Client) (rc : ℤ) (buf : List UInt8) :
    List (Around × Option (List UInt8)) → Except ClientFault (Returned × List UInt8)
  | [] => .ok (⟨c,rc,[]⟩, buf)
  | (around,received) :: rest => do
    let r ← packetHandle c around signed received
    let buf := received.getD buf
    if r.rc ≠ packetType ∧ 0 ≤ r.rc then
      let (w,buf) ← waitPacket signed packetType r.client r.rc buf rest
      return ({ w with out := r.out ++ w.out }, buf)
    else return (r,buf)

/-- What a connection attempt meets: the result of `network_connect`, what the passes of
`mqtt_wait_packet` read, and whether the thread could be made. -/
structure Connecting where
  networkRc : ℤ
  data : ConnectData
  sends : Bool
  received : List (Around × Option (List UInt8))
  threadMemory : Bool

section Connect
variable (signed : Bool) (c : Client) (k : Connecting)

/-- From the CONNECT packet to the CONNACK. -/
def connectExchange : Except ClientFault Returned := do
  let (len,buf) ← inside (serializeConnect c.writeBuf c.writeBuf.length k.data)
  let c := c.withBuf buf
  -- `rc` is still the success of `network_connect`
  if len ≤ 0 then return ⟨c, mqttSuccessError, []⟩
  if k.sends = false then return ⟨c, mqttSendPacketError, []⟩
  let out := sentOf k.sends buf len
  let (r,readBuf) ← waitPacket signed MsgType.connack.code c mqttFailedError [] k.received
  if r.rc = MsgType.connack.code then
    let (ok,connack) ← inside (deserializeConnack ⟨0,0⟩ readBuf)
    return ⟨r.client, if ok = 1 then connack.connackRc.toNat else mqttConnectFailedError, out ++ r.out⟩
  else return ⟨r.client, mqttConnectFailedError, out ++ r.out⟩

def connectWithResults : Except ClientFault Returned :=
  if c.clientState = .connected then .ok ⟨c, mqttSuccessError, []⟩
  else if k.networkRc ≠ mqttSuccessError then .ok ⟨c, k.networkRc, []⟩
  else do
    let r ← connectExchange signed c k
    if r.rc = mqttSuccessError then
      if r.client.thread = true ∨ k.threadMemory = true then
        return { r with client :=
          { r.client with clientState := .connected, thread := true, pingOutstanding := 0 } }
      else return { r with client := { r.client with pingOutstanding := 0 }, rc := mqttConnectFailedError }
    else return { r with client := { r.client with clientState := .initialized } }

/-- The loop of `mqtt_try_resubscribe`; `around` says what happens at each handler. -/
def tryResubscribeLoop (around : ℕ → Around) (c : Client) (rc : ℤ) :
    List ℕ → Except ClientFault Returned
  | [] => .ok ⟨c,rc,[]⟩
  | p :: ps =>
    match c.heap p with
    | none => .error .dangling
    | some h => do
      let r ← mqttSubscribe c (around p) h.topicFilter h.qos (some h.handler)
      let rest ← tryResubscribeLoop around r.client r.rc ps
      return { rest with out := r.out ++ rest.out }

def tryResubscribe (around : ℕ → Around) : Except ClientFault Returned :=
  if c.msgHandlerList = [] then .ok ⟨c, mqttSuccessError, []⟩
  else tryResubscribeLoop around c mqttResubscribeError c.msgHandlerList

/-- All overdue or not, the ack handlers are processed when the client is connected again. -/
def tryDoReconnect (around : ℕ → Around) (resends : AckHandlers → Bool) :
    Except ClientFault Returned := do
  let r ← (if c.clientState ≠ .connected then connectWithResults signed c k
    else .ok ⟨c, mqttConnectFailedError, []⟩ : Except ClientFault Returned)
  if r.rc = mqttSuccessError then
    let s ← tryResubscribe r.client around
    let (c,out) ← ackListScan s.client ⟨false, fun _ => true, resends⟩
    return ⟨c, s.rc, r.out ++ s.out ++ out⟩
  else return r

end Connect

/-- The calls, in whatever order the application and the thread make them. -/
inductive Call
  | connect (k : Connecting)
  | subscribe (around : Around) (topicFilter : CString) (qos : ℤ) (handler : Option MessageHandler)
  | unsubscribe (around : Around) (topicFilter : CString)
  | publish (around : Around) (topicFilter : CString) (msg : MqttMessage)
  | disconnect (around : Around)
  | packet (around : Around) (received : Option (List UInt8))
  | scan (expired resends : AckHandlers → Bool)
  | reconnect (k : Connecting) (around : ℕ → Around) (resends : AckHandlers → Bool)
  | cleanSession

/-- One call; the thread cleans the session only when it finds it disconnected. -/
def perform (signed : Bool) (c : Client) : Call → Except ClientFault Returned
  | .connect k => connectWithResults signed c k
  | .subscribe around topicFilter qos handler => mqttSubscribe c around topicFilter qos handler
  | .unsubscribe around topicFilter => mqttUnsubscribe c around topicFilter
  | .publish around topicFilter msg => mqttPublish c around topicFilter msg
  | .disconnect around => mqttDisconnect c around
  | .packet around received => packetHandle c around signed received
  | .scan expired resends =>
    (ackListScan c ⟨true, expired, resends⟩).map fun r => ⟨r.1, mqttSuccessError, r.2⟩
  | .reconnect k around resends => tryDoReconnect signed c k around resends
  | .cleanSession =>
    if c.clientState = .cleanSession then
      (cleanSession c).map fun c => ⟨c, mqttCleanSessionError, []⟩
    else .ok ⟨c, mqttSuccessError, []⟩

/-- The calls one after the other: `none` as soon as one of them goes wrong. -/
def step (signed : Bool) (c : Client) (call : Call) : Option Client :=
  (perform signed c call).toOption.map Returned.client

end CppOperate.Mqtt
