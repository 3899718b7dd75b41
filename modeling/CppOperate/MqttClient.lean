import CppOperate.MqttConnect
import CppOperate.MqttDeserialize
import CppOperate.MqttNetwork
import CppOperate.MqttTopics
import Mathlib

/-! The client of `mqttclient/mqttclient.c`, one call at a time: its state, the list of
acknowledgements it waits for, and the list of its subscriptions, whose handlers lie in
memory that is allocated and freed. What the network, the timers and `malloc` do is an
input of each call. -/
namespace CppOperate.Mqtt
open ByteMemory CLoops CNumbers CStrings

/-- What a call must not do: leave a buffer (or overflow an `int`), or use a handler that
was freed or never assigned. -/
inductive ClientFault
  | outside
  | dangling
deriving DecidableEq, Repr

def inside {α : Type} (x : Option α) : Except ClientFault α :=
  match x with
  | some a => .ok a
  | none => .error .outside

inductive ClientState
  | invalid | initialized | connected | disconnected | cleanSession
deriving DecidableEq, Repr

def mqttCleanSessionError : ℤ := -24
def mqttAckNodeIsExistError : ℤ := -23
def mqttAckHandlerNumTooMuchError : ℤ := -22
def mqttResubscribeError : ℤ := -21
def mqttSubscribeError : ℤ := -20
def mqttSerializePublishAckPacketError : ℤ := -18
def mqttPublishPacketError : ℤ := -17
def mqttSubscribeNotAckError : ℤ := -15
def mqttNotConnectError : ℤ := -14
def mqttSubscribeAckPacketError : ℤ := -13
def mqttUnsubscribeAckPacketError : ℤ := -12
def mqttPublishAckPacketError : ℤ := -11
def mqttPublishAckTypeError : ℤ := -10
def mqttPubrecPacketError : ℤ := -9
def mqttConnectFailedError : ℤ := -4
def mqttMemNotEnoughError : ℤ := -3
def mqttFailedError : ℤ := -1
def mqttSetPublishDupFailedError : ℤ := -25

def mqttMaxPacketId : UInt16 := 65534
def mqttTopicLenMax : ℕ := 64
def mqttAckHandlerNumMax : ℕ := 64

/-- `message_handler_t`: `default_msg_handler`, or a function of the application. -/
inductive MessageHandler
  | defaultMsgHandler
  | application (f : ℕ)
deriving DecidableEq, Repr

/-- `message_handlers_t`. -/
structure MessageHandlers where
  qos : ℤ
  topicFilter : CString
  handler : MessageHandler
deriving DecidableEq, Repr

/-- `ack_handlers_t`; `handler` is the address of a `message_handlers_t`, or NULL, and
`payload` has `payload_len` bytes. -/
structure AckHandlers where
  type : ℕ
  packetId : UInt16
  payload : List UInt8
  handler : Option ℕ
deriving DecidableEq, Repr

/-- `mqtt_message_t`; `payload` is what the memory holds from the pointer on. -/
structure MqttMessage where
  qos : ℤ
  retained : UInt8
  dup : UInt8
  id : UInt16
  payloadlen : ℕ
  payload : Option (List UInt8)
deriving DecidableEq, Repr

structure MessageData where
  topicName : List UInt8
  message : MqttMessage
deriving DecidableEq, Repr

/-- `mqtt_client_t`. Addresses count up to `heapEnd` and are not used again; `heap` has
the handlers that are allocated. `mqtt_write_buf_size` is the length of `writeBuf`. -/
structure Client where
  clientState : ClientState
  packetId : UInt16
  pingOutstanding : ℕ
  ackHandlerNumber : ℕ
  ackHandlerList : List AckHandlers
  msgHandlerList : List ℕ
  heap : ℕ → Option MessageHandlers
  heapEnd : ℕ
  writeBuf : List UInt8
  interceptorHandler : Option MessageHandler
  thread : Bool

def Client.withBuf (c : Client) (buf : List UInt8) : Client := { c with writeBuf := buf }

/-- A new handler at the end of the memory in use. -/
def Client.withHandler (c : Client) (h : MessageHandlers) : Client :=
  { c with heap := Function.update c.heap c.heapEnd (some h), heapEnd := c.heapEnd+1 }

/-- A handler is freed; one that is in no list is linked to itself, and taking it out does
nothing. -/
def Client.without (c : Client) (p : ℕ) : Client :=
  { c with heap := Function.update c.heap p none, msgHandlerList := c.msgHandlerList.erase p }

/-- What `mqtt_init` and the setters leave, with a write buffer. -/
def Client.init (writeBuf : List UInt8) (interceptorHandler : Option MessageHandler) : Client where
  clientState := .initialized
  packetId := 1
  pingOutstanding := 0
  ackHandlerNumber := 0
  ackHandlerList := []
  msgHandlerList := []
  heap := fun _ => none
  heapEnd := 0
  writeBuf := writeBuf
  interceptorHandler := interceptorHandler
  thread := false

/-- What a call does to the world: a packet that `mqtt_send_packet` sent with success, or
a message given to a handler. -/
inductive Output
  | sent (packet : List UInt8)
  | delivered (handler : MessageHandler) (data : MessageData)
deriving DecidableEq, Repr

structure Returned where
  client : Client
  rc : ℤ
  out : List Output

/-- What happens around a call: whether the packet it sends goes out, and the PINGREQ;
whether a keep-alive timer has expired; whether there is memory for a message handler and
for an ack handler; and what is in a `packet_id` that nothing was assigned to. -/
structure Around where
  sends : Bool
  pings : Bool
  idle : Bool
  handlerMemory : Bool
  ackMemory : Bool
  unassigned : UInt16

section Calls
variable (c : Client) (around : Around)

def mqttIsConnected : ℤ :=
  if c.clientState = .cleanSession then mqttCleanSessionError
  else if c.clientState ≠ .connected then mqttNotConnectError
  else mqttSuccessError

def setPublishDup (dup : UInt8) : Except ClientFault (Client × ℤ) := do
  let (byte,_) ← inside (readChar c.writeBuf 0)
  let header := MqttHeader.ofByte byte
  if header.type.toNat ≠ MsgType.publish.code then return (c, mqttSetPublishDupFailedError)
  let header := { header with dup := BitVec.ofNat 1 dup.toNat }
  let ptr ← inside (writeChar ⟨c.writeBuf,0⟩ header.byte)
  return (c.withBuf ptr.mem, mqttSuccessError)

def ackHandlerIsMaximum : Bool := decide (mqttAckHandlerNumMax ≤ c.ackHandlerNumber)

/-- The counter has 24 bits. -/
def addAckHandlerNum : Client := { c with ackHandlerNumber := (c.ackHandlerNumber+1)%2^24 }

def addAckHandler (a : AckHandlers) : Client :=
  { addAckHandlerNum c with ackHandlerList := c.ackHandlerList ++ [a] }

def getNextPacketId : Client :=
  { c with packetId := if c.packetId = mqttMaxPacketId then 1 else c.packetId+1 }

/-- `mqtt_send_packet`: what it returns, and what went out. -/
def sendPacketRc (sends : Bool) : ℤ := if sends then mqttSuccessError else mqttSendPacketError

def sentOf (sends : Bool) (writeBuf : List UInt8) (len : ℤ) : List Output :=
  if sends then [.sent (writeBuf.take len.toNat)] else []

def newMessageData (topicName : MqttString) (message : MqttMessage) :
    Except ClientFault MessageData := do
  let len := if topicName.lenstring.len < mqttTopicLenMax-1 then topicName.lenstring.len
    else mqttTopicLenMax-1
  let name ← inside (readAt (topicName.lenstring.data.getD []) 0 len.toNat)
  return ⟨name,message⟩

/-- The loop of `mqtt_get_msg_handler`. -/
def getMsgHandlerLoop (heap : ℕ → Option MessageHandlers) (topicName : MqttString) :
    List ℕ → Except ClientFault (Option ℕ)
  | [] => .ok none
  | p :: ps =>
    match heap p with
    | none => .error .dangling
    | some h =>
      if filterTakes h.topicFilter topicName then .ok (some p)
      else getMsgHandlerLoop heap topicName ps

def getMsgHandler (topicName : MqttString) : Except ClientFault (Option ℕ) :=
  getMsgHandlerLoop c.heap topicName c.msgHandlerList

/-- `strlen`, which must find a NUL in the memory. -/
def strlen (mem : List UInt8) : Option ℕ := if 0 ∈ mem then some (str mem).length else none

/-- The two `memset`s stay in the read buffer if the payload has a NUL behind it. -/
def deliverMessage (topicName : MqttString) (message : MqttMessage) :
    Except ClientFault (ℤ × List Output) := do
  let found ← getMsgHandler c topicName
  let handler := match found with
    | some p => (c.heap p).map MessageHandlers.handler
    | none => c.interceptorHandler
  let md ← newMessageData topicName message
  let _ ← inside (strlen (message.payload.getD []))
  let _ ← inside (readAt (topicName.lenstring.data.getD []) 0 topicName.lenstring.len.toNat)
  match handler with
  | some h => return (mqttSuccessError, [.delivered h md])
  | none => return (mqttFailedError, [])

/-- `payload_len` is a `uint16_t`. -/
def ackHandlerCreate (type : ℕ) (packetId : UInt16) (payloadLen : ℤ) (handler : Option ℕ) :
    Except ClientFault (Option AckHandlers) :=
  if around.ackMemory then do
    let payload ← inside (readAt c.writeBuf 0 (payloadLen%2^16).toNat)
    return some ⟨type, packetId, payload, handler⟩
  else .ok none

def ackListNodeIsExist (type : ℕ) (packetId : UInt16) : Bool :=
  c.ackHandlerList.any fun a => decide (packetId = a.packetId ∧ type = a.type)

def ackListRecord (type : MsgType) (packetId : UInt16) (payloadLen : ℤ) (handler : Option ℕ) :
    Except ClientFault (Client × ℤ) :=
  if ackListNodeIsExist c type.code packetId then .ok (c, mqttAckNodeIsExistError)
  else do
    match ← ackHandlerCreate c around type.code packetId payloadLen handler with
    | none => return (c, mqttMemNotEnoughError)
    | some a => return (addAckHandler c a, mqttSuccessError)

/-- The loop of `mqtt_ack_list_unrecord`: the list and the counter it leaves, and
`*handler` if it was assigned. -/
def ackListUnrecordLoop (type : ℕ) (packetId : UInt16) :
    List AckHandlers → (number : ℕ) → Option (Option ℕ) → List AckHandlers × ℕ × Option (Option ℕ)
  | [], number, handler => ([], number, handler)
  | a :: as, number, handler =>
    if packetId ≠ a.packetId ∨ type ≠ a.type then
      let (rest,number,handler) := ackListUnrecordLoop type packetId as number handler
      (a :: rest, number, handler)
    else ackListUnrecordLoop type packetId as (number-1) (some a.handler)

def ackListUnrecord (type : ℕ) (packetId : UInt16) : Client × Option (Option ℕ) :=
  let (list,number,handler) :=
    ackListUnrecordLoop type packetId c.ackHandlerList c.ackHandlerNumber none
  ({ c with ackHandlerList := list, ackHandlerNumber := number }, handler)

def msgHandlerCreate (topicFilter : CString) (qos : ℤ) (handler : MessageHandler) :
    Client × Option ℕ :=
  if around.handlerMemory then (c.withHandler ⟨qos, topicFilter, handler⟩, some c.heapEnd)
  else (c,none)

def msgHandlerDestory (p : ℕ) : Except ClientFault Client :=
  match c.heap p with
  | none => .error .dangling
  | some _ => .ok (c.without p)

def isTopicEquals (topicFilter topic : CString) : Bool :=
  let topicLen := int32 topic.bytes.length
  decide (topicFilter.bytes.length = topicLen%2^64) &&
    strncmpEqual topicFilter.bytes topic.bytes topicLen

def msgHandlerIsExistLoop (heap : ℕ → Option MessageHandlers) (topicFilter : CString) :
    List ℕ → Except ClientFault Bool
  | [] => .ok false
  | p :: ps =>
    match heap p with
    | none => .error .dangling
    | some h =>
      if isTopicEquals h.topicFilter topicFilter then .ok true
      else msgHandlerIsExistLoop heap topicFilter ps

def msgHandlersInstall (p : ℕ) : Except ClientFault (Client × ℤ) :=
  match c.heap p with
  | none => .error .dangling
  | some h => do
    if (← msgHandlerIsExistLoop c.heap h.topicFilter c.msgHandlerList) = true then
      let c ← msgHandlerDestory c p
      return (c, mqttSuccessError)
    else return ({ c with msgHandlerList := c.msgHandlerList ++ [p] }, mqttSuccessError)

/-- The handlers of ack handlers that are given up. -/
def destroyHandlers (c : Client) : List AckHandlers → Except ClientFault Client
  | [] => .ok c
  | a :: as =>
    match a.handler with
    | none => destroyHandlers c as
    | some p => do
      let c ← msgHandlerDestory c p
      destroyHandlers c as

/-- The handlers that are left in the list are freed one by one. -/
def freeList (heap : ℕ → Option MessageHandlers) :
    List ℕ → Except ClientFault (ℕ → Option MessageHandlers)
  | [] => .ok heap
  | p :: ps =>
    match heap p with
    | none => .error .dangling
    | some _ => freeList (Function.update heap p none) ps

def cleanSession : Except ClientFault Client := do
  let c ← destroyHandlers c c.ackHandlerList
  let heap ← freeList c.heap c.msgHandlerList
  return { c with ackHandlerList := [], ackHandlerNumber := 0, heap := heap,
                  msgHandlerList := [], clientState := .invalid }

end Calls

theorem inside_eq_ok_iff {α : Type} (x : Option α) (a : α) : inside x = .ok a ↔ x = some a := by
  cases x <;> simp [inside]

end CppOperate.Mqtt
