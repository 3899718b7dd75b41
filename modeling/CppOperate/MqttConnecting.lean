import CppOperate.MqttSession
import Mathlib

/-! When `mqtt_connect` reports success. -/
namespace CppOperate.Mqtt
open ByteMemory CLoops

/-- The packet types for which `mqtt_packet_handle` leaves its `switch` by `goto exit`. -/
def Ignored (type : ℕ) : Prop := type ∉ [0, 3, 4, 5, 6, 7, 9, 11, 13]

instance (type : ℕ) : Decidable (Ignored type) := by
  unfold Ignored
  infer_instance

/-- The CONNACK that `mqtt_wait_packet` finds: before it come only packets that are ignored. -/
inductive Acknowledged : List (Around × Option (List UInt8)) → List UInt8 → Prop
  | connack (around : Around) (buf : List UInt8) (rest : List (Around × Option (List UInt8)))
      (htype : packetTypeOf (some buf) = MsgType.connack.code) :
      Acknowledged ((around, some buf) :: rest) buf
  | ignored (around : Around) (received : Option (List UInt8))
      (rest : List (Around × Option (List UInt8))) (buf : List UInt8)
      (hignored : Ignored (packetTypeOf received))
      (htype : packetTypeOf received ≠ MsgType.connack.code) (h : Acknowledged rest buf) :
      Acknowledged ((around,received) :: rest) buf

section Wait
variable {signed : Bool} {c : Client} {around : Around}

end Wait

section Connect
variable {signed : Bool} {c : Client} {k : Connecting} {r : Returned}

end Connect

end CppOperate.Mqtt
