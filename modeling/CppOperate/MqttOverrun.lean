import CppOperate.MqttConnect
import Mathlib

/-! Every packet the library can write, and when writing it leaves the buffer whose
length it was given: the room that is asked for against the bytes that are stored. -/
namespace CppOperate.Mqtt
open ByteMemory WireFormats

/-- A call of one of the `MQTTSerialize_` functions. -/
inductive Outgoing
  -- options of any version
  | connect (o : ConnectData) (r : ConnectRequest) (h : o.Asks r)
  | publish (dup : UInt8) (qos : ℤ) (retained : UInt8) (packetid : UInt16) (topic : Topic)
      (payload : List UInt8)
  | subscribe (dup : UInt8) (packetid : UInt16) (subs : List (Topic × ℤ))
  | unsubscribe (dup : UInt8) (packetid : UInt16) (topics : List Topic)
  | ack (packettype : MsgType) (dup : UInt8) (packetid : UInt16)
  | zero (packettype : MsgType)
  | connack (connackRc sessionPresent : UInt8)
  | suback (packetid : UInt16) (grantedQoSs : List ℤ)
  | unsuback (packetid : UInt16)

namespace Outgoing

def header : Outgoing → MqttHeader
  | connect _ _ _ => headerOf .connect 0 0 0
  | publish dup qos retained _ _ _ => headerOf .publish dup qos retained
  | subscribe dup _ _ => headerOf .subscribe dup 1 0
  | unsubscribe dup _ _ => headerOf .unsubscribe dup 1 0
  | ack packettype dup _ => headerOf packettype dup (if packettype = .pubrel then 1 else 0) 0
  | zero packettype => headerOf packettype 0 0 0
  | connack _ _ => headerOf .connack 0 0 0
  | suback _ _ => headerOf .suback 0 0 0
  | unsuback _ => headerOf .unsuback 0 0 0

def body : Outgoing → List UInt8
  | connect _ r _ => r.body
  | publish _ qos _ packetid topic payload => publishBody qos topic.bytes packetid payload
  | subscribe _ packetid subs =>
    subscribeBody packetid (subs.map fun s => (s.1.bytes,UInt8.ofInt s.2))
  | unsubscribe _ packetid topics => unsubscribeBody packetid (topics.map Topic.bytes)
  | ack _ _ packetid => be16 packetid.toNat
  | zero _ => []
  | connack connackRc sessionPresent => [connackFlags sessionPresent, connackRc]
  | suback packetid grantedQoSs => be16 packetid.toNat ++ grantedQoSs.map UInt8.ofInt
  | unsuback packetid => be16 packetid.toNat

/-- The remaining length in the header. -/
def announced : Outgoing → ℕ
  | connect o r _ => r.body.length-o.uncounted
  | p => p.body.length

/-- The bytes stored. -/
def size (p : Outgoing) : ℕ := 1+(base128 p.announced).length+p.body.length

end Outgoing

end CppOperate.Mqtt
