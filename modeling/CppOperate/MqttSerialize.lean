import CppOperate.MqttPacket
import Mathlib

/-! The packets of `mqtt/`, from their fields to bytes in a buffer: what each function
stores, and when it stores past the end of the buffer it was given. -/
namespace CppOperate.Mqtt
open ByteMemory CNumbers CStrings WireFormats

/-- A packet on the wire: its header byte, the length of the rest, the rest. -/
def frame (header : MqttHeader) (body : List UInt8) : List UInt8 :=
  header.byte :: (base128 body.length ++ body)

/-- `header.bits = { type, dup, qos, retain }`, each cut to its bits. -/
def headerOf (type : MsgType) (dup : UInt8) (qos : ℤ) (retain : UInt8) : MqttHeader :=
  { retain := BitVec.ofNat 1 retain.toNat, qos := BitVec.ofInt 2 qos,
    dup := BitVec.ofNat 1 dup.toNat, type := BitVec.ofNat 4 type.code }

/-- What is returned: `ptr - buf`, and the buffer. -/
def serialized (ptr : Cursor) : ℤ × List UInt8 := (ptr.pos, ptr.mem)

def serializePublishLength (qos : ℤ) (topicName : MqttString) (payloadlen : ℤ) : Option ℤ := do
  let len ← intAdd (← intAdd 2 (mqttStrlen topicName)) payloadlen
  if 0 < qos then intAdd len 2 else return len

def serializePublish (buf : List UInt8) (buflen : ℤ) (dup : UInt8) (qos : ℤ) (retained : UInt8)
    (packetid : UInt16) (topicName : MqttString) (payload : List UInt8) (payloadlen : ℤ) :
    Option (ℤ × List UInt8) := do
  let remLen ← serializePublishLength qos topicName payloadlen
  if buflen < (← packetLen remLen) then return (bufferTooShort, buf)
  let ptr ← writeChar ⟨buf,0⟩ (headerOf .publish dup qos retained).byte
  let ptr ← packetEncode ptr remLen
  let ptr ← writeMqttString ptr topicName
  let ptr ← (if 0 < qos then writeInt ptr packetid.toNat else some ptr : Option Cursor)
  let ptr ← writeData ptr payload payloadlen
  return serialized ptr

def serializeAck (buf : List UInt8) (buflen : ℤ) (packettype : MsgType) (dup : UInt8)
    (packetid : UInt16) : Option (ℤ × List UInt8) := do
  if buflen < 4 then return (bufferTooShort, buf)
  let qos := if packettype = .pubrel then 1 else 0
  let ptr ← writeChar ⟨buf,0⟩ (headerOf packettype dup qos 0).byte
  let ptr ← packetEncode ptr 2
  let ptr ← writeInt ptr packetid.toNat
  return serialized ptr

def serializeZero (buf : List UInt8) (buflen : ℤ) (packettype : MsgType) :
    Option (ℤ × List UInt8) := do
  if buflen < 2 then return (bufferTooShort, buf)
  let ptr ← writeChar ⟨buf,0⟩ (headerOf packettype 0 0 0).byte
  let ptr ← packetEncode ptr 0
  return serialized ptr

def serializeDisconnect (buf : List UInt8) (buflen : ℤ) : Option (ℤ × List UInt8) :=
  serializeZero buf buflen .disconnect

def serializePingreq (buf : List UInt8) (buflen : ℤ) : Option (ℤ × List UInt8) :=
  serializeZero buf buflen .pingreq

def serializeSubscribeLength (count : ℤ) (topicFilters : List MqttString) : Option ℤ :=
  (List.range count.toNat).foldlM (fun len i => do
    let s ← topicFilters[i]?
    intAdd len (← intAdd (← intAdd 2 (mqttStrlen s)) 1)) 2

def serializeSubscribe (buf : List UInt8) (buflen : ℤ) (dup : UInt8) (packetid : UInt16)
    (count : ℤ) (topicFilters : List MqttString) (requestedQoSs : List ℤ) :
    Option (ℤ × List UInt8) := do
  let remLen ← serializeSubscribeLength count topicFilters
  if buflen < (← packetLen remLen) then return (bufferTooShort, buf)
  let ptr ← writeChar ⟨buf,0⟩ (headerOf .subscribe dup 1 0).byte
  let ptr ← packetEncode ptr remLen
  let ptr ← writeInt ptr packetid.toNat
  let ptr ← (List.range count.toNat).foldlM (fun ptr i => do
    let ptr ← writeMqttString ptr (← topicFilters[i]?)
    writeChar ptr (UInt8.ofInt (← requestedQoSs[i]?))) ptr
  return serialized ptr

def serializeUnsubscribeLength (count : ℤ) (topicFilters : List MqttString) : Option ℤ :=
  (List.range count.toNat).foldlM (fun len i => do
    let s ← topicFilters[i]?
    intAdd len (← intAdd 2 (mqttStrlen s))) 2

def serializeUnsubscribe (buf : List UInt8) (buflen : ℤ) (dup : UInt8) (packetid : UInt16)
    (count : ℤ) (topicFilters : List MqttString) : Option (ℤ × List UInt8) := do
  let remLen ← serializeUnsubscribeLength count topicFilters
  if buflen < (← packetLen remLen) then return (bufferTooShort, buf)
  let ptr ← writeChar ⟨buf,0⟩ (headerOf .unsubscribe dup 1 0).byte
  let ptr ← packetEncode ptr remLen
  let ptr ← writeInt ptr packetid.toNat
  let ptr ← (List.range count.toNat).foldlM (fun ptr i => do
    writeMqttString ptr (← topicFilters[i]?)) ptr
  return serialized ptr

/-- `MQTTConnackFlags` with only `sessionpresent` set. -/
def connackFlags (sessionPresent : UInt8) : UInt8 := UInt8.ofNat (sessionPresent.toNat % 2)

/-- The string a packet should carry: the bytes before the NUL, or the counted ones. -/
inductive MqttString.Holds : MqttString → List UInt8 → Prop
  | c (s : CString) (l : MqttLenString) (hl : l.len ≤ 0) : Holds ⟨some s, l⟩ s.bytes
  | counted (bs rest : List UInt8) : Holds ⟨none, bs.length, some (bs ++ rest)⟩ bs
  | null (d : Option (List UInt8)) : Holds ⟨none, 0, d⟩ []

theorem MqttString.holds_ofC (s : CString) : (MqttString.ofC s).Holds s.bytes :=
  .c s ⟨0,none⟩ le_rfl

theorem MqttString.Holds.strlen {s : MqttString} {bs : List UInt8} (h : s.Holds bs)
    (hlen : bs.length < 2^31) : mqttStrlen s = bs.length := by
  cases h with
  | c s l hl => exact int32_natCast _ hlen
  | counted bs rest => rfl
  | null d => rfl

/-- What is stored of a string: its length modulo `2^16`, and all of its bytes. -/
theorem MqttString.Holds.write {s : MqttString} {bs : List UInt8} (h : s.Holds bs)
    (hlen : bs.length < 2^31) (ptr : Cursor) : writeMqttString ptr s = ptr.put (prefixed bs) := by
  cases h with
  | c s l hl =>
    simp only [writeMqttString, if_neg (show ¬ 0 < l.len by omega)]
    unfold writeCString prefixed
    rw [Cursor.put_append]
    simp only [int32_natCast _ hlen, writeInt_natCast]
    congr 1
    funext ptr
    rw [writeData_natCast _ _ _ (by rw [List.length_append]; omega), List.take_left' rfl]
  | counted bs rest =>
    by_cases hpos : 0 < bs.length
    · simp only [writeMqttString, if_pos (show (0:ℤ) < bs.length by omega)]
      unfold prefixed
      rw [Cursor.put_append, writeInt_natCast]
      congr 1
      funext ptr
      simp only [Option.bind_eq_bind, Option.bind_some]
      rw [writeData_natCast _ _ _ (by rw [List.length_append]; omega), List.take_left' rfl]
    · have hnil : bs = [] := List.eq_nil_of_length_eq_zero (by omega)
      subst hnil
      exact writeInt_natCast ptr 0
  | null d => exact writeInt_natCast ptr 0

/-- Two stores one after the other are one store. -/
theorem put_bind_put {α : Type} (ptr : Cursor) (as bs : List UInt8) (k : Cursor → Option α) :
    ((ptr.put as).bind fun ptr => (ptr.put bs).bind k) = (ptr.put (as ++ bs)).bind k := by
  rw [Cursor.put_append, Option.bind_assoc]

theorem put_bind_if {α : Type} (p : Prop) [Decidable p] (ptr : Cursor) (as bs : List UInt8)
    (k : Cursor → Option α) :
    ((ptr.put as).bind fun ptr => (if p then ptr.put bs else some ptr).bind k) =
      (ptr.put (as ++ if p then bs else [])).bind k := by
  by_cases hp : p
  · simp only [if_pos hp, put_bind_put]
  · simp only [if_neg hp, List.append_nil, Option.bind_some]

/-- A loop that stores a piece in every round. -/
theorem put_bind_foldlM {α ι : Type} (f : Cursor → ι → Option Cursor) (g : ι → List UInt8)
    (l : List ι) (hf : ∀ i ∈ l, ∀ ptr, f ptr i = ptr.put (g i)) (ptr : Cursor) (as : List UInt8)
    (k : Cursor → Option α) : ((ptr.put as).bind fun ptr => (l.foldlM f ptr).bind k) =
      (ptr.put (as ++ l.flatMap g)).bind k := by
  induction l generalizing as with
  | nil =>
    simp only [List.foldlM_nil, List.flatMap_nil, List.append_nil]
    rfl
  | cons i l ih =>
    have htail := ih (fun j hj => hf j (List.mem_cons_of_mem i hj)) (as ++ g i)
    rw [List.flatMap_cons, ← List.append_assoc, ← htail, ← put_bind_put]
    congr 1
    funext ptr
    rw [List.foldlM_cons, hf i List.mem_cons_self, Option.bind_eq_bind, Option.bind_assoc]

theorem frame_length (header : MqttHeader) (body : List UInt8) :
    (frame header body).length = 1+(base128 body.length).length+body.length := by
  unfold frame
  rw [List.length_cons, List.length_append]
  omega

/-- A whole packet at the start of a buffer. -/
theorem put_packet (buf packet : List UInt8) :
    ((Cursor.put ⟨buf,0⟩ packet).bind fun ptr => some (serialized ptr)) =
      if packet.length ≤ buf.length then
        some ((packet.length:ℤ), packet ++ buf.drop packet.length)
      else none := by
  rw [Cursor.put_start]
  split_ifs <;> rfl

/-- What a function returns that asks for `room` bytes, announces `n` and stores `body`:
an error, or the packet in front of what else the buffer held; `none` where the packet
is longer than the buffer. -/
def storedAs (room n : ℕ) (buf : List UInt8) (buflen : ℤ) (header : MqttHeader)
    (body : List UInt8) : Option (ℤ × List UInt8) :=
  let packet := header.byte :: (base128 n ++ body)
  if buflen < room then some (bufferTooShort, buf)
  else if packet.length ≤ buf.length then
    some ((packet.length:ℤ), packet ++ buf.drop packet.length)
  else none

/-- A function that announces the bytes it stores. -/
def stored (room : ℕ) (buf : List UInt8) (buflen : ℤ) (header : MqttHeader) (body : List UInt8) :
    Option (ℤ × List UInt8) :=
  if buflen < room then some (bufferTooShort, buf)
  else if (frame header body).length ≤ buf.length then
    some (((frame header body).length:ℤ), frame header body ++ buf.drop (frame header body).length)
  else none

/-- The same for the functions that measure the packet first. -/
def measured (buf : List UInt8) (buflen : ℤ) (header : MqttHeader) (body : List UInt8) :
    Option (ℤ × List UInt8) :=
  stored (roomFor body.length) buf buflen header body

/-- What all functions have in common: `write` stores the body behind the header and the
remaining length. -/
theorem packet_of_write (buf : List UInt8) (header : MqttHeader) (n : ℕ) (body : List UInt8)
    (write : Cursor → Option (ℤ × List UInt8))
    (hwrite : ∀ (ptr : Cursor) (as : List UInt8), (ptr.put as).bind write =
      (ptr.put (as ++ body)).bind fun ptr => some (serialized ptr)) :
    (do
      let ptr ← writeChar ⟨buf,0⟩ header.byte
      let ptr ← packetEncode ptr n
      write ptr) =
      if (header.byte :: (base128 n ++ body)).length ≤ buf.length then
        some (((header.byte :: (base128 n ++ body)).length:ℤ),
          header.byte :: (base128 n ++ body) ++ buf.drop (header.byte :: (base128 n ++ body)).length)
      else none := by
  rw [← put_packet]
  simp only [Option.bind_eq_bind, writeChar, packetEncode_natCast, put_bind_put, hwrite]
  rfl

theorem storedAs_of_write (buf : List UInt8) (buflen : ℤ) (header : MqttHeader) (n : ℕ)
    (body : List UInt8) (hlen : n+5 < 2^31) (write : Cursor → Option (ℤ × List UInt8))
    (hwrite : ∀ (ptr : Cursor) (as : List UInt8), (ptr.put as).bind write =
      (ptr.put (as ++ body)).bind fun ptr => some (serialized ptr)) :
    (do
      if buflen < (← packetLen n) then return (bufferTooShort, buf)
      let ptr ← writeChar ⟨buf,0⟩ header.byte
      let ptr ← packetEncode ptr n
      write ptr) = storedAs (roomFor n) n buf buflen header body := by
  unfold storedAs
  rw [packetLen_natCast _ hlen, Option.bind_eq_bind, Option.bind_some]
  dsimp only
  rw [← packet_of_write buf header n body write hwrite]
  rfl

theorem measured_of_write (buf : List UInt8) (buflen : ℤ) (header : MqttHeader) (body : List UInt8)
    (hlen : body.length+5 < 2^31) (write : Cursor → Option (ℤ × List UInt8))
    (hwrite : ∀ (ptr : Cursor) (as : List UInt8), (ptr.put as).bind write =
      (ptr.put (as ++ body)).bind fun ptr => some (serialized ptr)) :
    (do
      if buflen < (← packetLen body.length) then return (bufferTooShort, buf)
      let ptr ← writeChar ⟨buf,0⟩ header.byte
      let ptr ← packetEncode ptr body.length
      write ptr) = measured buf buflen header body :=
  storedAs_of_write buf buflen header body.length body hlen write hwrite

def publishBody (qos : ℤ) (topic : List UInt8) (packetid : UInt16) (payload : List UInt8) :
    List UInt8 :=
  prefixed topic ++ (if 0 < qos then be16 packetid.toNat else []) ++ payload

theorem serializePublish_eq (buf : List UInt8) (buflen : ℤ) (dup : UInt8) (qos : ℤ)
    (retained : UInt8) (packetid : UInt16) (topicName : MqttString) (topic payload : List UInt8)
    (htopic : topicName.Holds topic) (hlen : topic.length+payload.length+9 < 2^31) :
    serializePublish buf buflen dup qos retained packetid topicName payload payload.length =
      measured buf buflen (headerOf .publish dup qos retained)
        (publishBody qos topic packetid payload) := by
  have hbody : (publishBody qos topic packetid payload).length =
      2+topic.length+payload.length+if 0 < qos then 2 else 0 := by
    unfold publishBody
    split_ifs <;> simp only [List.length_append, prefixed_length, be16_length, List.length_nil] <;>
      omega
  have hremLen : serializePublishLength qos topicName payload.length =
      some ((publishBody qos topic packetid payload).length:ℤ) := by
    unfold serializePublishLength
    rw [htopic.strlen (by omega), hbody, intAdd_of_range _ _ (by omega) (by omega),
      Option.bind_eq_bind, Option.bind_some, intAdd_of_range _ _ (by omega) (by omega),
      Option.bind_some]
    split_ifs with hqos
    · rw [intAdd_of_range _ _ (by omega) (by omega)]
      push_cast
      rfl
    · push_cast
      rfl
  have hid (ptr : Cursor) : writeInt ptr packetid.toNat = ptr.put (be16 packetid.toNat) :=
    writeInt_natCast ptr _
  have hpayload (ptr : Cursor) : writeData ptr payload payload.length = ptr.put payload := by
    rw [writeData_natCast _ _ _ le_rfl, List.take_length]
  unfold serializePublish
  rw [hremLen, Option.bind_eq_bind, Option.bind_some]
  apply measured_of_write _ _ _ _ (by rw [hbody]; split_ifs <;> omega)
  intro ptr as
  simp only [Option.bind_eq_bind, htopic.write (by omega), hid, hpayload, put_bind_put,
    put_bind_if]
  unfold publishBody
  simp only [List.append_assoc]
  rfl

/-- An `MQTTString` together with the bytes it stands for. -/
structure Topic where
  string : MqttString
  bytes : List UInt8
  holds : string.Holds bytes

/-- A loop that adds up the lengths of the pieces. -/
theorem foldlM_intAdd {ι : Type} (f : ℤ → ι → Option ℤ) (g : ι → List UInt8) (l : List ι)
    (hf : ∀ i ∈ l, ∀ n : ℕ, n+(g i).length < 2^31 → f n i = some ((n+(g i).length : ℕ):ℤ))
    (n : ℕ) (h : n+(l.flatMap g).length < 2^31) :
    l.foldlM f (n:ℤ) = some ((n+(l.flatMap g).length : ℕ):ℤ) := by
  induction l generalizing n with
  | nil => rfl
  | cons i l ih =>
    rw [List.flatMap_cons, List.length_append] at h ⊢
    rw [List.foldlM_cons, hf i List.mem_cons_self n (by omega), Option.bind_eq_bind,
      Option.bind_some, ih (fun j hj => hf j (List.mem_cons_of_mem i hj)) _ (by omega),
      Nat.add_assoc]

def subscribeBody (packetid : UInt16) (subs : List (List UInt8 × UInt8)) : List UInt8 :=
  be16 packetid.toNat ++ subs.flatMap fun s => prefixed s.1 ++ [s.2]

def unsubscribeBody (packetid : UInt16) (topics : List (List UInt8)) : List UInt8 :=
  be16 packetid.toNat ++ topics.flatMap prefixed

theorem serializeSubscribeLength_eq (subs : List (Topic × ℤ)) :
    serializeSubscribeLength subs.length (subs.map fun s => s.1.string) =
      subs.foldlM (fun len s => do
        intAdd len (← intAdd (← intAdd 2 (mqttStrlen s.1.string)) 1)) 2 := by
  unfold serializeSubscribeLength
  simp only [Int.toNat_natCast, List.getElem?_map, Option.bind_eq_bind, Option.bind_map]
  exact foldlM_range _ subs 2

theorem serializeSubscribe_loop (subs : List (Topic × ℤ)) (ptr : Cursor) :
    (List.range (subs.length:ℤ).toNat).foldlM (fun ptr i => do
      let ptr ← writeMqttString ptr (← (subs.map fun s => s.1.string)[i]?)
      writeChar ptr (UInt8.ofInt (← (subs.map fun s => s.2)[i]?))) ptr =
      subs.foldlM (fun ptr s => (writeMqttString ptr s.1.string).bind fun ptr =>
        writeChar ptr (UInt8.ofInt s.2)) ptr := by
  rw [Int.toNat_natCast]
  refine (congrArg (fun f => List.foldlM f ptr (List.range subs.length)) ?_).trans
    (foldlM_range _ subs ptr)
  funext ptr i
  rw [List.getElem?_map, List.getElem?_map]
  cases subs[i]? <;> rfl

theorem serializeSubscribe_eq (buf : List UInt8) (buflen : ℤ) (dup : UInt8) (packetid : UInt16)
    (subs : List (Topic × ℤ))
    (hlen : (subscribeBody packetid
      (subs.map fun s => (s.1.bytes,UInt8.ofInt s.2))).length+5 < 2^31) :
    serializeSubscribe buf buflen dup packetid subs.length (subs.map fun s => s.1.string)
      (subs.map fun s => s.2) = measured buf buflen (headerOf .subscribe dup 1 0)
        (subscribeBody packetid (subs.map fun s => (s.1.bytes,UInt8.ofInt s.2))) := by
  let piece (s : Topic × ℤ) : List UInt8 := prefixed s.1.bytes ++ [UInt8.ofInt s.2]
  have hpiece (s : Topic × ℤ) : (piece s).length = 2+s.1.bytes.length+1 := by
    rw [List.length_append, prefixed_length, List.length_singleton]
  have hbody : subscribeBody packetid (subs.map fun s => (s.1.bytes,UInt8.ofInt s.2)) =
      be16 packetid.toNat ++ subs.flatMap piece := by
    unfold subscribeBody
    rw [List.flatMap_map]
  rw [hbody] at hlen ⊢
  have hsum : (subs.flatMap piece).length+7 < 2^31 := by
    rw [List.length_append, be16_length] at hlen
    omega
  have hle (s : Topic × ℤ) (hs : s ∈ subs) : (piece s).length ≤ (subs.flatMap piece).length := by
    rw [List.length_flatMap]
    exact List.le_sum_of_mem (List.mem_map_of_mem hs)
  have hremLen : serializeSubscribeLength subs.length (subs.map fun s => s.1.string) =
      some ((be16 packetid.toNat ++ subs.flatMap piece).length:ℤ) := by
    rw [serializeSubscribeLength_eq, List.length_append, be16_length]
    apply foldlM_intAdd _ piece subs _ 2 (by omega)
    intro s hs n hn
    have hbytes := hle s hs
    rw [hpiece] at hn hbytes ⊢
    have h1 := intAdd_of_range 2 s.1.bytes.length (by omega) (by omega)
    have h2 := intAdd_of_range (2+s.1.bytes.length) 1 (by omega) (by omega)
    have h3 := intAdd_of_range n (2+s.1.bytes.length+1) (by omega) (by omega)
    rw [s.1.holds.strlen (by omega), h1, Option.bind_eq_bind, Option.bind_some,
      h2, Option.bind_some, h3]
    push_cast
    rfl
  have hloop (s : Topic × ℤ) (hs : s ∈ subs) (ptr : Cursor) :
      ((writeMqttString ptr s.1.string).bind fun ptr => writeChar ptr (UInt8.ofInt s.2)) =
        ptr.put (piece s) := by
    have hbytes := hle s hs
    rw [hpiece] at hbytes
    rw [s.1.holds.write (by omega)]
    unfold writeChar
    rw [Cursor.put_append]
  unfold serializeSubscribe
  rw [hremLen, Option.bind_eq_bind, Option.bind_some]
  apply measured_of_write _ _ _ _ (by rw [List.length_append, be16_length]; omega)
  intro ptr as
  have hrun := put_bind_foldlM _ piece subs hloop ptr (as ++ be16 packetid.toNat)
    fun ptr => some (serialized ptr)
  rw [← List.append_assoc, ← hrun, ← put_bind_put]
  simp only [serializeSubscribe_loop, writeInt_natCast]
  rfl

/-- The lengths of the topics, as the list of strings has them. -/
theorem serializeUnsubscribeLength_eq (topics : List Topic) :
    serializeUnsubscribeLength topics.length (topics.map Topic.string) =
      topics.foldlM (fun len t => do intAdd len (← intAdd 2 (mqttStrlen t.string))) 2 := by
  unfold serializeUnsubscribeLength
  simp only [Int.toNat_natCast, List.getElem?_map, Option.bind_eq_bind, Option.bind_map]
  exact foldlM_range _ topics 2

theorem serializeUnsubscribe_loop (topics : List Topic) (ptr : Cursor) :
    (List.range (topics.length:ℤ).toNat).foldlM (fun ptr i => do
      writeMqttString ptr (← (topics.map Topic.string)[i]?)) ptr =
      topics.foldlM (fun ptr t => writeMqttString ptr t.string) ptr := by
  simp only [Int.toNat_natCast, List.getElem?_map, Option.bind_eq_bind, Option.bind_map]
  exact foldlM_range _ topics ptr

theorem serializeUnsubscribe_eq (buf : List UInt8) (buflen : ℤ) (dup : UInt8) (packetid : UInt16)
    (topics : List Topic)
    (hlen : (unsubscribeBody packetid (topics.map Topic.bytes)).length+5 < 2^31) :
    serializeUnsubscribe buf buflen dup packetid topics.length (topics.map Topic.string) =
      measured buf buflen (headerOf .unsubscribe dup 1 0)
        (unsubscribeBody packetid (topics.map Topic.bytes)) := by
  let piece (t : Topic) : List UInt8 := prefixed t.bytes
  have hbody : unsubscribeBody packetid (topics.map Topic.bytes) =
      be16 packetid.toNat ++ topics.flatMap piece := by
    unfold unsubscribeBody
    rw [List.flatMap_map]
  rw [hbody] at hlen ⊢
  have hsum : (topics.flatMap piece).length+7 < 2^31 := by
    rw [List.length_append, be16_length] at hlen
    omega
  have hle (t : Topic) (ht : t ∈ topics) : (piece t).length ≤ (topics.flatMap piece).length := by
    rw [List.length_flatMap]
    exact List.le_sum_of_mem (List.mem_map_of_mem ht)
  have hremLen : serializeUnsubscribeLength topics.length (topics.map Topic.string) =
      some ((be16 packetid.toNat ++ topics.flatMap piece).length:ℤ) := by
    rw [serializeUnsubscribeLength_eq, List.length_append, be16_length]
    apply foldlM_intAdd _ piece topics _ 2 (by omega)
    intro t ht n hn
    have hbytes := hle t ht
    rw [prefixed_length] at hn hbytes ⊢
    have h1 := intAdd_of_range 2 t.bytes.length (by omega) (by omega)
    have h2 := intAdd_of_range n (2+t.bytes.length) (by omega) (by omega)
    rw [t.holds.strlen (by omega), h1, Option.bind_eq_bind, Option.bind_some, h2]
    push_cast
    rfl
  have hloop (t : Topic) (ht : t ∈ topics) (ptr : Cursor) :
      writeMqttString ptr t.string = ptr.put (piece t) := by
    have hbytes := hle t ht
    rw [prefixed_length] at hbytes
    exact t.holds.write (by omega) ptr
  unfold serializeUnsubscribe
  rw [hremLen, Option.bind_eq_bind, Option.bind_some]
  apply measured_of_write _ _ _ _ (by rw [List.length_append, be16_length]; omega)
  intro ptr as
  have hrun := put_bind_foldlM _ piece topics hloop ptr (as ++ be16 packetid.toNat)
    fun ptr => some (serialized ptr)
  rw [← List.append_assoc, ← hrun, ← put_bind_put]
  simp only [serializeUnsubscribe_loop, writeInt_natCast]
  rfl

end CppOperate.Mqtt
