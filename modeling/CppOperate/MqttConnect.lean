import CppOperate.MqttRoundTrip
import Mathlib

/-! The CONNECT packet (`mqtt/MQTTConnectClient.c`, `mqtt/MQTTConnectServer.c`): the
client's options, the flags byte, and which options the server reads back. -/
namespace CppOperate.Mqtt
open ByteMemory CNumbers CStrings WireFormats

/-- The fields of `MQTTPacket_willOptions` that are sent. -/
structure WillOptions where
  topicName : MqttString
  message : MqttString
  retained : UInt8
  qos : UInt8
deriving DecidableEq, Repr

/-- The fields of `MQTTPacket_connectData` that are sent. -/
structure ConnectData where
  mqttVersion : UInt8
  clientID : MqttString
  keepAliveInterval : UInt16
  cleansession : UInt8
  willFlag : UInt8
  will : WillOptions
  username : MqttString
  password : MqttString
deriving DecidableEq, Repr

/-- The bit fields of `MQTTConnectFlags` that have a name. -/
@[ext] structure MqttConnectFlags where
  cleansession : BitVec 1
  will : BitVec 1
  willQoS : BitVec 2
  willRetain : BitVec 1
  password : BitVec 1
  username : BitVec 1
deriving DecidableEq, Repr

/-- `flags.all`, with the unnamed bit 0. -/
def MqttConnectFlags.all (f : MqttConnectFlags) : UInt8 :=
  UInt8.ofNat (f.username.toNat*128+f.password.toNat*64+f.willRetain.toNat*32+f.willQoS.toNat*8+
    f.will.toNat*4+f.cleansession.toNat*2)

/-- `flags.bits` of a byte. -/
def MqttConnectFlags.ofByte (b : UInt8) : MqttConnectFlags :=
  { cleansession := BitVec.ofNat 1 (b.toNat/2), will := BitVec.ofNat 1 (b.toNat/4),
    willQoS := BitVec.ofNat 2 (b.toNat/8), willRetain := BitVec.ofNat 1 (b.toNat/32),
    password := BitVec.ofNat 1 (b.toNat/64), username := BitVec.ofNat 1 (b.toNat/128) }

@[simp] theorem MqttConnectFlags.ofByte_all (f : MqttConnectFlags) :
    MqttConnectFlags.ofByte f.all = f := by
  have h1 := f.cleansession.isLt
  have h2 := f.will.isLt
  have h3 := f.willQoS.isLt
  have h4 := f.willRetain.isLt
  have h5 := f.password.isLt
  have h6 := f.username.isLt
  have hall : f.all.toNat = f.username.toNat*128+f.password.toNat*64+f.willRetain.toNat*32+
      f.willQoS.toNat*8+f.will.toNat*4+f.cleansession.toNat*2 := toNat_ofNat _ (by omega)
  ext1 <;> apply BitVec.eq_of_toNat_eq <;> simp only [ofByte, BitVec.toNat_ofNat, hall] <;> omega

/-- `options->username.cstring || options->username.lenstring.data`. -/
def MqttString.given (s : MqttString) : Bool := s.cstring.isSome || s.lenstring.data.isSome

def serializeConnectLength (options : ConnectData) : Option ℤ := do
  let len : ℤ := if options.mqttVersion = 3 then 12 else if options.mqttVersion = 4 then 10 else 0
  let len ← intAdd len (← intAdd (mqttStrlen options.clientID) 2)
  let len ← (if options.willFlag ≠ 0 then do
      let topic ← intAdd (mqttStrlen options.will.topicName) 2
      let both ← intAdd topic (mqttStrlen options.will.message)
      intAdd len (← intAdd both 2)
    else some len : Option ℤ)
  let len ← (if options.username.given then do intAdd len (← intAdd (mqttStrlen options.username) 2)
    else some len : Option ℤ)
  if options.password.given then intAdd len (← intAdd (mqttStrlen options.password) 2)
  else return len

def mqtt : CString := ⟨[77, 81, 84, 84], by decide⟩
def mqIsdp : CString := ⟨[77, 81, 73, 115, 100, 112], by decide⟩

def connectFlags (options : ConnectData) : MqttConnectFlags :=
  { cleansession := BitVec.ofNat 1 options.cleansession.toNat
    will := if options.willFlag ≠ 0 then 1 else 0
    willQoS := if options.willFlag ≠ 0 then BitVec.ofNat 2 options.will.qos.toNat else 0
    willRetain := if options.willFlag ≠ 0 then BitVec.ofNat 1 options.will.retained.toNat else 0
    password := if options.password.given then 1 else 0
    username := if options.username.given then 1 else 0 }

def serializeConnect (buf : List UInt8) (buflen : ℤ) (options : ConnectData) :
    Option (ℤ × List UInt8) := do
  let len ← serializeConnectLength options
  if buflen < (← packetLen len) then return (bufferTooShort, buf)
  let ptr ← writeChar ⟨buf,0⟩ (headerOf .connect 0 0 0).byte
  let ptr ← packetEncode ptr len
  let ptr ← writeCString ptr (if options.mqttVersion = 4 then mqtt else mqIsdp)
  let ptr ← writeChar ptr (if options.mqttVersion = 4 then 4 else 3)
  let flags := connectFlags options
  let ptr ← writeChar ptr flags.all
  let ptr ← writeInt ptr options.keepAliveInterval.toNat
  let ptr ← writeMqttString ptr options.clientID
  let ptr ← (if options.willFlag ≠ 0 then do
      let ptr ← writeMqttString ptr options.will.topicName
      writeMqttString ptr options.will.message
    else some ptr : Option Cursor)
  let ptr ← (if flags.username ≠ 0 then writeMqttString ptr options.username else some ptr :
    Option Cursor)
  let ptr ← (if flags.password ≠ 0 then writeMqttString ptr options.password else some ptr :
    Option Cursor)
  return serialized ptr

/-- `memcmp(a, b, n) == 0`: the bytes up to the first difference must be there. -/
def memcmpEq : List UInt8 → List UInt8 → ℕ → Option Bool
  | _, _, 0 => some true
  | a :: as, b :: bs, n+1 => if a = b then memcmpEq as bs n else some false
  | _, _, _+1 => none

/-- The comparison is with as many bytes as the shorter of the two has. -/
def packetCheckVersion (protocol : MqttString) (version : UInt8) : Option Bool := do
  let len := protocol.lenstring.len
  if version = 3 then memcmpEq (← protocol.lenstring.data) mqIsdp.bytes (min 6 len).toNat
  else if version = 4 then memcmpEq (← protocol.lenstring.data) mqtt.bytes (min 4 len).toNat
  else return false

/-- The will of a CONNECT, if its flag is set: whether it was complete. -/
def readWill (flags : MqttConnectFlags) (data : ConnectData) (buf : List UInt8)
    (curdata enddata : ℕ) : Option (Bool × ConnectData × ℕ) :=
  if flags.will ≠ 0 then do
    let will := { data.will with
      qos := UInt8.ofNat flags.willQoS.toNat
      retained := UInt8.ofNat flags.willRetain.toNat }
    let (ok,topicName,curdata) ← readMqttLenString will.topicName buf curdata enddata
    let will := { will with topicName }
    if ok = false then return (false, { data with will }, curdata)
    let (ok,message,curdata) ← readMqttLenString will.message buf curdata enddata
    return (ok, { data with will := { will with message } }, curdata)
  else some (true,data,curdata)

/-- The user name and the password of a CONNECT: a name must be there for a password,
and at least three bytes before either of them. -/
def readLogin (flags : MqttConnectFlags) (data : ConnectData) (buf : List UInt8)
    (curdata enddata : ℕ) : Option (ℤ × ConnectData) :=
  if flags.username ≠ 0 then
    if (enddata:ℤ)-curdata < 3 then some (0,data)
    else do
      let (ok,username,curdata) ← readMqttLenString data.username buf curdata enddata
      let data := { data with username }
      if ok = false then return (0,data)
      if flags.password ≠ 0 then
        if (enddata:ℤ)-curdata < 3 then return (0,data)
        let (ok,password,_) ← readMqttLenString data.password buf curdata enddata
        return (if ok then 1 else 0, { data with password })
      else return (1,data)
  else if flags.password ≠ 0 then some (0,data)
  else some (1,data)

/-- The version byte is checked and not stored. -/
def deserializeConnect (data : ConnectData) (buf : List UInt8) (len : ℕ) :
    Option (ℤ × ConnectData) := do
  let enddata := len
  let (byte,curdata) ← readChar buf 0
  let header := MqttHeader.ofByte byte
  if header.type.toNat ≠ MsgType.connect.code then return (0,data)
  let (digits,_) ← packetDecodeBuf buf curdata
  let (ok,protocol,curdata) ← readMqttLenString ⟨none,0,none⟩ buf (curdata+digits) enddata
  if ok = false ∨ (enddata:ℤ)-curdata < 0 then return (0,data)
  let (version,curdata) ← readChar buf curdata
  if (← packetCheckVersion protocol version) = false then return (0,data)
  let (flags,curdata) ← readChar buf curdata
  let flags := MqttConnectFlags.ofByte flags
  let (keepAlive,curdata) ← readInt buf curdata
  let data := { data with
    cleansession := UInt8.ofNat flags.cleansession.toNat
    keepAliveInterval := UInt16.ofNat keepAlive }
  let (ok,clientID,curdata) ← readMqttLenString data.clientID buf curdata enddata
  let data := { data with clientID }
  if ok = false then return (0,data)
  let data := { data with willFlag := UInt8.ofNat flags.will.toNat }
  let (ok,data,curdata) ← readWill flags data buf curdata enddata
  if ok = false then return (0,data)
  readLogin flags data buf curdata enddata

/-- What a client asks for. -/
structure Will where
  topic : List UInt8
  message : List UInt8
  retained : Bool
  qos : BitVec 2

structure ConnectRequest where
  v311 : Bool
  clientID : List UInt8
  keepAlive : UInt16
  clean : Bool
  will : Option Will
  username : Option (List UInt8)
  password : Option (List UInt8)

/-- The options stand for the request, but for the protocol version. -/
structure ConnectData.Carries (o : ConnectData) (r : ConnectRequest) : Prop where
  clientID : o.clientID.Holds r.clientID
  keepAlive : o.keepAliveInterval = r.keepAlive
  clean : o.cleansession = if r.clean then 1 else 0
  willFlag : o.willFlag = if r.will.isSome then 1 else 0
  will : ∀ w, r.will = some w → o.will.topicName.Holds w.topic ∧ o.will.message.Holds w.message ∧
    o.will.qos = UInt8.ofNat w.qos.toNat ∧ o.will.retained = if w.retained then 1 else 0
  username : ∀ u, r.username = some u → o.username.Holds u
  password : ∀ p, r.password = some p → o.password.Holds p

/-- The options of a client that makes the request. Every `MQTTVersion` but 4 is sent as
version 3. -/
structure ConnectData.Asks (o : ConnectData) (r : ConnectRequest) : Prop extends o.Carries r where
  v311 : r.v311 = decide (o.mqttVersion = 4)
  usernameGiven : o.username.given = r.username.isSome
  passwordGiven : o.password.given = r.password.isSome

/-- The versions whose bytes `MQTTSerialize_connectLength` counts. -/
def ConnectData.Known (o : ConnectData) : Prop := o.mqttVersion = 3 ∨ o.mqttVersion = 4

instance (o : ConnectData) : Decidable o.Known := inferInstanceAs (Decidable (_ ∨ _))

structure ConnectData.Requests (o : ConnectData) (r : ConnectRequest) : Prop extends o.Asks r where
  known : o.Known

/-- The bytes of protocol name, version, flags and keep-alive that
`MQTTSerialize_connectLength` leaves out for the other versions. -/
def ConnectData.uncounted (o : ConnectData) : ℕ := if o.Known then 0 else 12

def ConnectRequest.flags (r : ConnectRequest) : MqttConnectFlags :=
  { cleansession := if r.clean then 1 else 0
    will := if r.will.isSome then 1 else 0
    willQoS := (r.will.map Will.qos).getD 0
    willRetain := if (r.will.map Will.retained).getD false then 1 else 0
    password := if r.password.isSome then 1 else 0
    username := if r.username.isSome then 1 else 0 }

/-- A string that may be left out. -/
def optional : Option (List UInt8) → List UInt8
  | some bs => prefixed bs
  | none => []

def willBytes : Option Will → List UInt8
  | some w => prefixed w.topic ++ prefixed w.message
  | none => []

def ConnectRequest.protocol (r : ConnectRequest) : List UInt8 :=
  if r.v311 then mqtt.bytes else mqIsdp.bytes

def ConnectRequest.version (r : ConnectRequest) : UInt8 := if r.v311 then 4 else 3

def ConnectRequest.body (r : ConnectRequest) : List UInt8 :=
  prefixed r.protocol ++ (r.version :: r.flags.all :: be16 r.keepAlive.toNat) ++
    (prefixed r.clientID ++ (willBytes r.will ++ (optional r.username ++ optional r.password)))

theorem ofNat_qos (q : BitVec 2) : BitVec.ofNat 2 (UInt8.ofNat q.toNat).toNat = q := by
  have hq := q.isLt
  rw [toNat_ofNat _ (by omega), BitVec.ofNat_toNat, BitVec.setWidth_eq]

theorem connectFlags_eq (o : ConnectData) (r : ConnectRequest) (h : o.Asks r) :
    connectFlags o = r.flags := by
  have hbit (b : Bool) : BitVec.ofNat 1 (if b then (1:UInt8) else 0).toNat = if b then 1 else 0 := by
    cases b <;> rfl
  unfold connectFlags ConnectRequest.flags
  rw [h.clean, h.willFlag, h.usernameGiven, h.passwordGiven, hbit]
  cases hwill : r.will with
  | none => rfl
  | some w =>
    obtain ⟨-,-,hqos,hretained⟩ := h.will w hwill
    rw [hqos, hretained, ofNat_qos, hbit]
    rfl

/-- The length of a string that may be left out. -/
theorem optional_length (s : MqttString) (o : Option (List UInt8)) (hgiven : s.given = o.isSome)
    (hholds : ∀ bs, o = some bs → s.Holds bs) (n : ℕ) (h : n+(optional o).length < 2^31) :
    (if s.given then (intAdd (mqttStrlen s) 2).bind fun m => intAdd n m else some (n:ℤ)) =
      some ((n+(optional o).length : ℕ):ℤ) := by
  cases o with
  | none => rw [hgiven, if_neg (by decide), optional, List.length_nil, Nat.add_zero]
  | some bs =>
    rw [optional, prefixed_length] at h ⊢
    have hs := (hholds bs rfl).strlen (by omega)
    have h1 := intAdd_of_range bs.length 2 (by omega) (by omega)
    have h2 := intAdd_of_range n (bs.length+2) (by omega) (by omega)
    rw [hgiven, if_pos (by rfl), hs, h1, Option.bind_some, h2]
    exact congrArg some (by push_cast; ring)

/-- And what is stored of it. -/
theorem optional_write {α : Type} (s : MqttString) (o : Option (List UInt8))
    (hholds : ∀ bs, o = some bs → s.Holds bs) (hlen : (optional o).length < 2^31)
    (flag : BitVec 1) (hflag : flag = if o.isSome then 1 else 0) (ptr : Cursor)
    (as : List UInt8) (k : Cursor → Option α) :
    ((ptr.put as).bind fun ptr => (if flag ≠ 0 then writeMqttString ptr s else some ptr).bind k) =
      (ptr.put (as ++ optional o)).bind k := by
  subst hflag
  cases o with
  | none => simp [optional]
  | some bs =>
    rw [optional, prefixed_length] at hlen
    rw [optional, ← put_bind_put]
    simp only [Option.isSome_some, if_true, (hholds bs rfl).write (by omega)]
    rfl

theorem will_length (o : ConnectData) (r : ConnectRequest) (h : o.Carries r) (n : ℕ)
    (hlen : n+(willBytes r.will).length < 2^31) :
    (if o.willFlag ≠ 0 then
        (intAdd (mqttStrlen o.will.topicName) 2).bind fun topic =>
          (intAdd topic (mqttStrlen o.will.message)).bind fun both =>
            (intAdd both 2).bind fun m => intAdd n m
      else some (n:ℤ)) = some ((n+(willBytes r.will).length : ℕ):ℤ) := by
  rw [h.willFlag]
  cases hwill : r.will with
  | none => rfl
  | some w =>
    obtain ⟨htopic,hmessage,-,-⟩ := h.will w hwill
    rw [hwill, willBytes, List.length_append, prefixed_length, prefixed_length] at hlen
    rw [willBytes, List.length_append, prefixed_length, prefixed_length]
    have h1 := intAdd_of_range w.topic.length 2 (by omega) (by omega)
    have h2 := intAdd_of_range (w.topic.length+2) w.message.length (by omega) (by omega)
    have h3 := intAdd_of_range (w.topic.length+2+w.message.length) 2 (by omega) (by omega)
    have h4 := intAdd_of_range n (w.topic.length+2+w.message.length+2) (by omega) (by omega)
    rw [Option.isSome_some, if_pos rfl, if_pos (show (1:UInt8) ≠ 0 by decide),
      htopic.strlen (by omega), hmessage.strlen (by omega), h1, Option.bind_some, h2,
      Option.bind_some, h3, Option.bind_some, h4]
    exact congrArg some (by push_cast; ring)

theorem will_write {α : Type} (o : ConnectData) (r : ConnectRequest) (h : o.Carries r)
    (hlen : (willBytes r.will).length < 2^31) (ptr : Cursor) (as : List UInt8)
    (k : Cursor → Option α) :
    ((ptr.put as).bind fun ptr => (if o.willFlag ≠ 0 then
        (writeMqttString ptr o.will.topicName).bind fun ptr =>
          writeMqttString ptr o.will.message
      else some ptr).bind k) = (ptr.put (as ++ willBytes r.will)).bind k := by
  rw [h.willFlag]
  cases hwill : r.will with
  | none => simp [willBytes]
  | some w =>
    obtain ⟨htopic,hmessage,-,-⟩ := h.will w hwill
    rw [hwill, willBytes, List.length_append, prefixed_length, prefixed_length] at hlen
    rw [willBytes, ← put_bind_put]
    simp only [Option.isSome_some, if_true, if_pos (show (1:UInt8) ≠ 0 by decide),
      htopic.write (by omega), hmessage.write (by omega), Cursor.put_append]

theorem ConnectRequest.body_length (r : ConnectRequest) : r.body.length =
    2+r.protocol.length+4+(2+r.clientID.length)+(willBytes r.will).length+
      (optional r.username).length+(optional r.password).length := by
  unfold ConnectRequest.body
  simp only [List.length_append, prefixed_length, List.length_cons, be16_length]
  omega

/-- The counted part of what is in front of the client's name. -/
theorem counted_eq (o : ConnectData) (r : ConnectRequest) (h : o.Asks r) :
    ∃ counted : ℕ, (if o.mqttVersion = 3 then (12:ℤ) else if o.mqttVersion = 4 then 10 else 0) =
      counted ∧ counted+o.uncounted = 2+r.protocol.length+4 := by
  unfold ConnectRequest.protocol ConnectData.uncounted ConnectData.Known
  rw [h.v311]
  by_cases h3 : o.mqttVersion = 3
  · exact ⟨12, by rw [if_pos h3]; rfl, by simp [h3, mqIsdp]⟩
  · by_cases h4 : o.mqttVersion = 4
    · exact ⟨10, by rw [if_neg h3, if_pos h4]; rfl, by simp [h4, mqtt]⟩
    · exact ⟨0, by rw [if_neg h3, if_neg h4]; rfl, by simp [h3, h4, mqIsdp]⟩

theorem serializeConnectLength_eq (o : ConnectData) (r : ConnectRequest) (h : o.Asks r)
    (hlen : r.body.length < 2^31) :
    serializeConnectLength o = some ((r.body.length-o.uncounted : ℕ):ℤ) := by
  have hbody := r.body_length
  obtain ⟨counted,hstart,hcounted⟩ := counted_eq o r h
  have h1 := intAdd_of_range r.clientID.length 2 (by omega) (by omega)
  have h2 := intAdd_of_range counted (r.clientID.length+2) (by omega) (by omega)
  have h2' : (counted:ℤ)+(r.clientID.length+2) = ((counted+(2+r.clientID.length) : ℕ):ℤ) := by
    push_cast
    ring
  have hwill := will_length o r h.toCarries _
    (show counted+(2+r.clientID.length)+(willBytes r.will).length < 2^31 by omega)
  have husername := optional_length o.username r.username h.usernameGiven h.username
    (counted+(2+r.clientID.length)+(willBytes r.will).length) (by omega)
  have hpassword := optional_length o.password r.password h.passwordGiven h.password
    (counted+(2+r.clientID.length)+(willBytes r.will).length+(optional r.username).length)
    (by omega)
  have hsum : r.body.length-o.uncounted = counted+(2+r.clientID.length)+(willBytes r.will).length+
      (optional r.username).length+(optional r.password).length := by omega
  unfold serializeConnectLength
  rw [hstart, h.clientID.strlen (by omega), h1, Option.bind_eq_bind, Option.bind_some, h2,
    Option.bind_some, h2', hwill, Option.bind_some, husername, Option.bind_some, hsum]
  exact hpassword

/-- Whatever the version, the whole body is stored; the remaining length announced is the
one that was counted. -/
theorem serializeConnect_eq_storedAs (buf : List UInt8) (buflen : ℤ) (o : ConnectData)
    (r : ConnectRequest) (h : o.Asks r) (hlen : r.body.length+5 < 2^31) :
    serializeConnect buf buflen o = storedAs (roomFor (r.body.length-o.uncounted))
      (r.body.length-o.uncounted) buf buflen (headerOf .connect 0 0 0) r.body := by
  have hbody := r.body_length
  have hprotocol : (if o.mqttVersion = 4 then mqtt else mqIsdp).bytes = r.protocol := by
    unfold ConnectRequest.protocol
    rw [h.v311]
    by_cases h4 : o.mqttVersion = 4 <;> simp [h4]
  have hversion : (if o.mqttVersion = 4 then (4:UInt8) else 3) = r.version := by
    unfold ConnectRequest.version
    rw [h.v311]
    by_cases h4 : o.mqttVersion = 4 <;> simp [h4]
  have hname (ptr : Cursor) : writeCString ptr (if o.mqttVersion = 4 then mqtt else mqIsdp) =
      ptr.put (prefixed r.protocol) := by
    rw [← hprotocol]
    exact (MqttString.holds_ofC _).write (by rw [hprotocol]; omega) ptr
  unfold serializeConnect
  rw [serializeConnectLength_eq o r h (by omega), Option.bind_eq_bind, Option.bind_some]
  apply storedAs_of_write _ _ _ _ _ (by omega)
  intro ptr as
  simp only [connectFlags_eq o r h, h.keepAlive, hname, hversion, Option.bind_eq_bind, writeChar,
    writeInt_natCast, h.clientID.write (by omega), put_bind_put]
  rw [will_write o r h.toCarries (by omega),
    optional_write o.username r.username h.username (by omega) r.flags.username rfl,
    optional_write o.password r.password h.password (by omega) r.flags.password rfl]
  unfold ConnectRequest.body
  simp only [List.append_assoc]
  rfl

theorem serializeConnect_eq (buf : List UInt8) (buflen : ℤ) (o : ConnectData) (r : ConnectRequest)
    (h : o.Requests r) (hlen : r.body.length+5 < 2^31) :
    serializeConnect buf buflen o = measured buf buflen (headerOf .connect 0 0 0) r.body := by
  have hall : o.uncounted = 0 := if_pos h.known
  rw [serializeConnect_eq_storedAs buf buflen o r h.toAsks hlen, hall, Nat.sub_zero]
  rfl

/-- When the server takes the request: a password needs a user name, and the last of the
two must not be empty. -/
def ConnectRequest.Readable (r : ConnectRequest) : Prop :=
  match r.username, r.password with
  | none, none => True
  | none, some _ => False
  | some u, none => u ≠ []
  | some _, some p => p ≠ []

/-- A one-bit field as the byte it is stored in. -/
theorem ofNat_bit (b : Bool) :
    UInt8.ofNat (if b then (1 : BitVec 1) else 0).toNat = if b then 1 else 0 := by
  cases b <;> rfl

/-- A string in front of `more`, which ends at `enddata`. -/
theorem readMqttLenString_before (s : MqttString) (buf : List UInt8) (ptr enddata : ℕ)
    (bs more rest : List UInt8) (hlen : bs.length < 65536)
    (hdrop : buf.drop ptr = prefixed bs ++ (more ++ rest))
    (hend : enddata = ptr+(prefixed bs ++ more).length) :
    ∃ s' ptr', readMqttLenString s buf ptr enddata = some (true,s',ptr') ∧ s'.Holds bs ∧
      buf.drop ptr' = more ++ rest ∧ enddata = ptr'+more.length := by
  obtain ⟨s',hread,hholds,hnext⟩ := readMqttLenString_prefixed s buf ptr bs more rest hlen hdrop
  refine ⟨s', ptr+2+bs.length, ?_, hholds, hnext, ?_⟩
  · rw [hend]
    exact hread
  · rw [hend, List.length_append, prefixed_length]
    omega

theorem readWill_eq (r : ConnectRequest) (data : ConnectData) (buf : List UInt8) (ptr enddata : ℕ)
    (more rest : List UInt8) (hwill : ∀ w, r.will = some w →
      w.topic.length < 65536 ∧ w.message.length < 65536)
    (hdrop : buf.drop ptr = willBytes r.will ++ (more ++ rest))
    (hend : enddata = ptr+(willBytes r.will ++ more).length) :
    ∃ will ptr', readWill r.flags data buf ptr enddata = some (true, { data with will }, ptr') ∧
      buf.drop ptr' = more ++ rest ∧ enddata = ptr'+more.length ∧
      ∀ w, r.will = some w → will.topicName.Holds w.topic ∧ will.message.Holds w.message ∧
        will.qos = UInt8.ofNat w.qos.toNat ∧ will.retained = if w.retained then 1 else 0 := by
  unfold readWill ConnectRequest.flags
  cases hw : r.will with
  | none =>
    rw [hw] at hdrop hend
    refine ⟨data.will, ptr, rfl, hdrop, hend, ?_⟩
    intro w hw'
    contradiction
  | some w =>
    obtain ⟨htopicLen,hmessageLen⟩ := hwill w hw
    rw [hw, willBytes, List.append_assoc] at hdrop hend
    obtain ⟨topicName,p,htopic,hholdsTopic,hnext,hnextEnd⟩ := readMqttLenString_before
      data.will.topicName buf ptr enddata w.topic (prefixed w.message ++ more) rest htopicLen
      (by rw [hdrop, List.append_assoc]) hend
    obtain ⟨message,p',hmessage,hholdsMessage,hafter,hafterEnd⟩ := readMqttLenString_before
      data.will.message buf p enddata w.message more rest hmessageLen
      (by rw [hnext, List.append_assoc]) hnextEnd
    refine ⟨⟨topicName, message, if w.retained then 1 else 0, UInt8.ofNat w.qos.toNat⟩, p', ?_,
      hafter, hafterEnd, ?_⟩
    · simp only [Option.isSome_some, if_true, Option.map_some, Option.getD_some, htopic,
        hmessage, Option.bind_eq_bind, Option.bind_some, ofNat_bit]
      rfl
    · intro w' hw'
      obtain rfl := Option.some.inj hw'
      exact ⟨hholdsTopic, hholdsMessage, rfl, rfl⟩

/-- Reading the user name and the password succeeds exactly for a readable request. -/
theorem readLogin_eq (r : ConnectRequest) (data : ConnectData) (buf : List UInt8)
    (ptr enddata : ℕ) (rest : List UInt8)
    (husername : ∀ u, r.username = some u → u.length < 65536)
    (hpassword : ∀ p, r.password = some p → p.length < 65536)
    (hdrop : buf.drop ptr = optional r.username ++ (optional r.password ++ rest))
    (hend : enddata = ptr+(optional r.username ++ optional r.password).length) :
    ∃ rc username password, readLogin r.flags data buf ptr enddata =
        some (rc, { data with username, password }) ∧ (rc = 1 ↔ r.Readable) ∧
      (rc = 1 → (∀ u, r.username = some u → username.Holds u) ∧
        (∀ p, r.password = some p → password.Holds p)) := by
  unfold readLogin ConnectRequest.flags ConnectRequest.Readable
  cases hu : r.username with
  | none =>
    cases hp : r.password with
    | none => exact ⟨1, data.username, data.password, rfl, by simp, by simp⟩
    | some p => exact ⟨0, data.username, data.password, rfl, by simp, by simp⟩
  | some u =>
    have huLen := husername u hu
    rw [hu, optional] at hdrop hend
    cases hp : r.password with
    | none =>
      rw [hp, optional] at hdrop hend
      obtain ⟨username,p,hread,hholds,-,-⟩ := readMqttLenString_before data.username buf ptr enddata
        u [] rest huLen hdrop hend
      rw [List.append_nil, prefixed_length] at hend
      by_cases hempty : u = []
      · subst hempty
        refine ⟨0, data.username, data.password, ?_, by simp, by simp⟩
        have hshort : (enddata:ℤ)-ptr < 3 := by
          rw [hend, List.length_nil]
          omega
        exact if_pos hshort
      · have hpos := List.length_pos_of_ne_nil hempty
        refine ⟨1, username, data.password, ?_, by simp [hempty], ?_⟩
        · have hlong : ¬ (enddata:ℤ)-ptr < 3 := by omega
          simp only [Option.isSome_some, if_true, if_neg hlong, hread, Option.bind_eq_bind,
            Option.bind_some]
          rfl
        · intro _
          refine ⟨?_, by simp⟩
          intro u' hu'
          rw [← Option.some.inj hu']
          exact hholds
    | some p =>
      have hpLen := hpassword p hp
      rw [hp, optional] at hdrop hend
      obtain ⟨username,q,hread,hholds,hnext,hnextEnd⟩ := readMqttLenString_before data.username buf
        ptr enddata u (prefixed p) rest huLen hdrop hend
      obtain ⟨password,q',hread',hholds',-,-⟩ := readMqttLenString_before data.password buf q enddata
        p [] rest hpLen (by rw [hnext]; rfl) (by rw [hnextEnd, List.append_nil])
      rw [List.length_append, prefixed_length, prefixed_length] at hend
      rw [prefixed_length] at hnextEnd
      have hlong : ¬ (enddata:ℤ)-ptr < 3 := by omega
      by_cases hempty : p = []
      · subst hempty
        have hshort : (enddata:ℤ)-q < 3 := by
          rw [hnextEnd, List.length_nil]
          omega
        refine ⟨0, username, data.password, ?_, by simp, by simp⟩
        simp only [Option.isSome_some, if_true, if_neg hlong, hread, if_pos hshort,
          Option.bind_eq_bind, Option.bind_some]
        rfl
      · have hpos := List.length_pos_of_ne_nil hempty
        have hlong' : ¬ (enddata:ℤ)-q < 3 := by omega
        refine ⟨1, username, password, ?_, by simp [hempty], ?_⟩
        · simp only [Option.isSome_some, if_true, if_neg hlong, hread, if_neg hlong', hread',
            Option.bind_eq_bind, Option.bind_some]
          rfl
        · intro _
          constructor
          · intro u' hu'
            rw [← Option.some.inj hu']
            exact hholds
          · intro p' hp'
            rw [← Option.some.inj hp']
            exact hholds'

/-- Every string of the request has a length that two bytes can hold. -/
structure ConnectRequest.Fits (r : ConnectRequest) : Prop where
  clientID : r.clientID.length < 65536
  will : ∀ w, r.will = some w → w.topic.length < 65536 ∧ w.message.length < 65536
  username : ∀ u, r.username = some u → u.length < 65536
  password : ∀ p, r.password = some p → p.length < 65536

theorem packetCheckVersion_eq (r : ConnectRequest) (more : List UInt8) :
    packetCheckVersion ⟨none, r.protocol.length, some (r.protocol ++ more)⟩ r.version =
      some true := by
  unfold ConnectRequest.protocol ConnectRequest.version
  cases r.v311 <;> simp [packetCheckVersion, memcmpEq, mqtt, mqIsdp]

/-- What the server makes of a CONNECT, whatever follows it in memory. -/
theorem deserializeConnect_body (r : ConnectRequest) (hfits : r.Fits) (rest : List UInt8)
    (hlen : r.body.length < 2^28) (data : ConnectData) :
    ∃ rc got, deserializeConnect data (frame (headerOf .connect 0 0 0) r.body ++ rest)
        (frame (headerOf .connect 0 0 0) r.body).length = some (rc,got) ∧
      (rc = 1 ↔ r.Readable) ∧ (rc = 1 → got.Carries r ∧ got.mqttVersion = data.mqttVersion) := by
  obtain ⟨hchar,hdecode,hdrop⟩ := frame_reads (headerOf .connect 0 0 0) r.body rest hlen
  have hend := frame_length (headerOf .connect 0 0 0) r.body
  have hproto : r.protocol.length < 65536 := by
    unfold ConnectRequest.protocol
    cases r.v311 <;> decide
  have hbody : readPrefixed r.body = some (r.protocol, (r.version :: r.flags.all ::
      be16 r.keepAlive.toNat) ++ (prefixed r.clientID ++ (willBytes r.will ++
        (optional r.username ++ optional r.password)))) := by
    unfold ConnectRequest.body
    rw [List.append_assoc]
    exact readPrefixed_prefixed _ _ hproto
  generalize htail : prefixed r.clientID ++ (willBytes r.will ++
    (optional r.username ++ optional r.password)) = tail at hbody
  have hread := readMqttLenString_of_readPrefixed ⟨none,0,none⟩ _ _ r.body rest _ _ hdrop hbody
  rw [← hend] at hread
  have hversion := drop_add_length _ _ (prefixed r.protocol) _ (hdrop.trans (by
    rw [((readPrefixed_eq_some_iff _ _ _).mp hbody).1, List.append_assoc]))
  rw [prefixed_length, ← Nat.add_assoc, List.append_assoc] at hversion
  obtain ⟨hversionChar,hflags⟩ := readChar_of_drop _ _ _ _ hversion
  obtain ⟨hflagsChar,hkeepAlive⟩ := readChar_of_drop _ _ _ _ hflags
  obtain ⟨hint,hafter⟩ := readInt_of_drop _ _ _ _ _ hkeepAlive
  have hbodyLen := r.body_length
  subst htail
  obtain ⟨clientID,p,hclientID,hholds,hclientDrop,hclientEnd⟩ := readMqttLenString_before
    data.clientID _ _ (frame (headerOf .connect 0 0 0) r.body).length r.clientID
    (willBytes r.will ++ (optional r.username ++ optional r.password)) rest hfits.clientID
    (hafter.trans (List.append_assoc _ _ _))
    (by simp only [List.length_append, prefixed_length]; omega)
  let data1 : ConnectData := { data with
    cleansession := UInt8.ofNat r.flags.cleansession.toNat
    keepAliveInterval := r.keepAlive
    clientID := clientID
    willFlag := UInt8.ofNat r.flags.will.toNat }
  obtain ⟨will,q,hwill,hwillDrop,hwillEnd,hcarried⟩ := readWill_eq r data1 _ p _
    (optional r.username ++ optional r.password) rest hfits.will
    (by rw [hclientDrop, List.append_assoc]) hclientEnd
  obtain ⟨rc,username,password,hlogin,hiff,hstrings⟩ := readLogin_eq r { data1 with will } _ q _ rest
    hfits.username hfits.password (by rw [hwillDrop, List.append_assoc]) hwillEnd
  refine ⟨rc, { data1 with will, username, password }, ?_, hiff, ?_⟩
  · unfold deserializeConnect
    simp only [hchar, Option.bind_eq_bind, Option.bind_some, MqttHeader.ofByte_byte, headerOf_type,
      ne_eq, not_true_eq_false, if_false, hdecode, hread, hversionChar, packetCheckVersion_eq,
      List.append_assoc]
    have hroom : ¬ (true = false ∨ ((frame (headerOf .connect 0 0 0) r.body).length:ℤ)-
        (1+(base128 r.body.length).length+2+r.protocol.length : ℕ) < 0) := by
      rintro (h | h)
      · contradiction
      · omega
    rw [if_neg hroom, if_neg (by decide)]
    simp only [hflagsChar, Option.bind_some, hint, hclientID, MqttConnectFlags.ofByte_all, ofNat_be16]
    rw [if_neg (by decide)]
    change (readWill r.flags data1 _ p _).bind _ = _
    rw [hwill, Option.bind_some, if_neg Bool.noConfusion]
    exact hlogin
  · intro hrc
    obtain ⟨husername,hpassword⟩ := hstrings hrc
    exact ⟨⟨hholds, rfl, ofNat_bit _, ofNat_bit _, hcarried, husername, hpassword⟩, rfl⟩

/-- A CONNECT of version 3 or 4 whose strings have lengths that two bytes can hold: either
the buffer is shorter than the room asked for and untouched, or the packet is in front
of its old contents, and the server takes it exactly if the request is readable and
then has everything but the protocol version. -/
theorem connect_read_back (buf : List UInt8) (buflen : ℤ) (o : ConnectData) (r : ConnectRequest)
    (h : o.Requests r) (hfits : r.Fits) (hlen : r.body.length < 2^28) (hbuf : buflen ≤ buf.length) :
    buflen < roomFor r.body.length ∧ serializeConnect buf buflen o = some (bufferTooShort, buf) ∨
    roomFor r.body.length ≤ buflen ∧
    ∃ packet, (packet.length:ℤ) ≤ buflen ∧
      serializeConnect buf buflen o =
        some ((packet.length:ℤ), packet ++ buf.drop packet.length) ∧
      ∀ data, ∃ rc got, deserializeConnect data (packet ++ buf.drop packet.length) packet.length =
          some (rc,got) ∧ (rc = 1 ↔ r.Readable) ∧
        (rc = 1 → got.Carries r ∧ got.mqttVersion = data.mqttVersion) := by
  rw [serializeConnect_eq buf buflen o r h (by omega)]
  apply (measured_cases buf buflen _ _ hlen hbuf).imp id
  rintro ⟨hroom,hle,hrun⟩
  exact ⟨hroom, _, hle, hrun, deserializeConnect_body r hfits _ hlen⟩

/-- A client `a` with a password and no user name, and one with a user name: the server
refuses the first and takes the second. -/
theorem connect_read_back_login :
    (∃ packet, (packet.length:ℤ) ≤ 18 ∧ ∀ data, ∃ rc got,
      deserializeConnect data (packet ++ (List.replicate 18 0).drop packet.length) packet.length =
        some (rc,got) ∧ rc ≠ 1) ∧
    ∃ packet, (packet.length:ℤ) ≤ 18 ∧ ∀ data, ∃ got,
      deserializeConnect data (packet ++ (List.replicate 18 0).drop packet.length) packet.length =
        some (1,got) ∧ got.username.Holds [112] := by
  let blank : MqttString := ⟨none,0,none⟩
  let a : MqttString := .ofC ⟨[97], by decide⟩
  let p : MqttString := .ofC ⟨[112], by decide⟩
  have hp (bs : List UInt8) (hbs : some [112] = some bs) : p.Holds bs := by
    obtain rfl := Option.some.inj hbs
    exact MqttString.holds_ofC _
  constructor
  · let r : ConnectRequest := ⟨true, [97], 60, true, none, none, some [112]⟩
    have hrequest : ConnectData.Requests ⟨4, a, 60, 1, 0, ⟨blank, blank, 0, 0⟩, blank, p⟩ r :=
      ⟨⟨⟨MqttString.holds_ofC _, rfl, rfl, rfl, by simp [r], by simp [r], hp⟩, rfl, rfl, rfl⟩,
        Or.inr rfl⟩
    rcases connect_read_back (List.replicate 18 0) 18 _ r hrequest
      ⟨by decide, by simp [r], by simp [r], by simp [r]⟩ (by decide) (by decide) with
      ⟨hshort,-⟩ | ⟨-,packet,hle,-,hread⟩
    · exact absurd hshort (by decide)
    · refine ⟨packet, hle, ?_⟩
      intro data
      obtain ⟨rc,got,hgot,hiff,-⟩ := hread data
      exact ⟨rc, got, hgot, hiff.not.mpr id⟩
  · let r : ConnectRequest := ⟨true, [97], 60, true, none, some [112], none⟩
    have hrequest : ConnectData.Requests ⟨4, a, 60, 1, 0, ⟨blank, blank, 0, 0⟩, p, blank⟩ r :=
      ⟨⟨⟨MqttString.holds_ofC _, rfl, rfl, rfl, by simp [r], hp, by simp [r]⟩, rfl, rfl, rfl⟩,
        Or.inr rfl⟩
    rcases connect_read_back (List.replicate 18 0) 18 _ r hrequest
      ⟨by decide, by simp [r], by simp [r], by simp [r]⟩ (by decide) (by decide) with
      ⟨hshort,-⟩ | ⟨-,packet,hle,-,hread⟩
    · exact absurd hshort (by decide)
    · refine ⟨packet, hle, ?_⟩
      intro data
      obtain ⟨rc,got,hgot,hiff,hcarries⟩ := hread data
      obtain rfl : rc = 1 := hiff.mpr (List.cons_ne_nil 112 [])
      exact ⟨got, hgot, (hcarries rfl).1.username [112] rfl⟩

def stringA : CString := ⟨[97], by decide⟩

def optionsOf (mqttVersion : UInt8) : ConnectData :=
  ⟨mqttVersion, .ofC stringA, 60, 1, 0, ⟨⟨none,0,none⟩, ⟨none,0,none⟩, 0, 0⟩, ⟨none,0,none⟩,
    ⟨none,0,none⟩⟩

end CppOperate.Mqtt
