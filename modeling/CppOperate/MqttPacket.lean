import CppOperate.CNumbers
import CppOperate.CStrings
import CppOperate.WireFormats
import Mathlib

/-! `mqtt/MQTTPacket.c`: the header byte, the remaining length, and the reads and
writes of characters, integers and strings that every packet is made of. `none` is
an access outside the memory pointed to, or an `int` overflow. -/
namespace CppOperate.Mqtt
open ByteMemory CNumbers CStrings WireFormats

def bufferTooShort : ℤ := -2
def readError : ℤ := -1

/-- `enum msgTypes`. -/
inductive MsgType
  | connect | connack | publish | puback | pubrec | pubrel | pubcomp
  | subscribe | suback | unsubscribe | unsuback | pingreq | pingresp | disconnect
deriving DecidableEq, Repr

def MsgType.code : MsgType → ℕ
  | .connect => 1
  | .connack => 2
  | .publish => 3
  | .puback => 4
  | .pubrec => 5
  | .pubrel => 6
  | .pubcomp => 7
  | .subscribe => 8
  | .suback => 9
  | .unsubscribe => 10
  | .unsuback => 11
  | .pingreq => 12
  | .pingresp => 13
  | .disconnect => 14

/-- The bit fields of `MQTTHeader`. -/
@[ext] structure MqttHeader where
  retain : BitVec 1
  qos : BitVec 2
  dup : BitVec 1
  type : BitVec 4
deriving DecidableEq, Repr

/-- `header.byte`. -/
def MqttHeader.byte (h : MqttHeader) : UInt8 :=
  UInt8.ofNat (h.type.toNat*16+h.dup.toNat*8+h.qos.toNat*2+h.retain.toNat)

/-- `header.bits` of a byte. -/
def MqttHeader.ofByte (b : UInt8) : MqttHeader :=
  { retain := BitVec.ofNat 1 b.toNat, qos := BitVec.ofNat 2 (b.toNat/2),
    dup := BitVec.ofNat 1 (b.toNat/8), type := BitVec.ofNat 4 (b.toNat/16) }

@[simp] theorem MqttHeader.ofByte_byte (h : MqttHeader) : MqttHeader.ofByte h.byte = h := by
  have hr := h.retain.isLt
  have hq := h.qos.isLt
  have hd := h.dup.isLt
  have ht := h.type.isLt
  have hbyte : h.byte.toNat = h.type.toNat*16+h.dup.toNat*8+h.qos.toNat*2+h.retain.toNat :=
    toNat_ofNat _ (by omega)
  ext1 <;> apply BitVec.eq_of_toNat_eq <;> simp only [ofByte, BitVec.toNat_ofNat, hbyte] <;> omega

@[simp] theorem MqttHeader.byte_ofByte (b : UInt8) : (MqttHeader.ofByte b).byte = b := by
  have hb := b.toNat_lt
  apply UInt8.toNat_inj.mp
  unfold byte ofByte
  rw [UInt8.toNat_ofNat']
  simp only [BitVec.toNat_ofNat]
  omega

/-- `a + b` of two `int`s. -/
def intAdd (a b : ℤ) : Option ℤ := (checkedInt (a+b)).toOption

theorem intAdd_of_range (a b : ℤ) (h0 : -2^31 ≤ a+b) (h : a+b < 2^31) :
    intAdd a b = some (a+b) := by
  unfold intAdd
  rw [checkedInt_of_range _ h0 h]
  rfl

theorem intAdd_of_overflow (a b : ℤ) (h : 2^31 ≤ a+b) : intAdd a b = none := by
  unfold intAdd checkedInt
  rw [if_neg (by omega)]
  rfl

/-- `MQTTLenString`; `data` is what the memory holds from the pointer on. -/
structure MqttLenString where
  len : ℤ
  data : Option (List UInt8)
deriving DecidableEq, Repr

structure MqttString where
  cstring : Option CString
  lenstring : MqttLenString
deriving DecidableEq, Repr

/-- `MQTTString_initializer` with its `cstring` set, as the client passes topics. -/
def MqttString.ofC (s : CString) : MqttString := ⟨some s, 0, none⟩

def mqttStrlen (s : MqttString) : ℤ :=
  match s.cstring with
  | some c => int32 c.bytes.length
  | none => s.lenstring.len

def writeChar (ptr : Cursor) (c : UInt8) : Option Cursor := ptr.put [c]

def writeInt (ptr : Cursor) (anInt : ℤ) : Option Cursor :=
  ptr.put [UInt8.ofInt (anInt.tdiv 256), UInt8.ofInt (anInt.tmod 256)]

/-- `memcpy(*pptr, data, len); *pptr += len` with `len` converted to `size_t`. -/
def writeData (ptr : Cursor) (data : List UInt8) (len : ℤ) : Option Cursor :=
  if len < 0 then none else (readAt data 0 len.toNat).bind ptr.put

def writeCString (ptr : Cursor) (string : CString) : Option Cursor := do
  let len := int32 string.bytes.length
  let ptr ← writeInt ptr len
  writeData ptr (string.bytes ++ [0]) len

def writeMqttString (ptr : Cursor) (s : MqttString) : Option Cursor :=
  if 0 < s.lenstring.len then do
    let ptr ← writeInt ptr s.lenstring.len
    writeData ptr (← s.lenstring.data) s.lenstring.len
  else match s.cstring with
    | some c => writeCString ptr c
    | none => writeInt ptr 0

theorem tdiv_lt (n : ℤ) (h : 0 < n.tdiv 128) : (n.tdiv 128).toNat < n.toNat := by
  rcases lt_or_ge n 0 with hn | hn
  · have hneg := Int.tdiv_nonneg (show 0 ≤ -n by omega) (show (0:ℤ) ≤ 128 by omega)
    rw [Int.neg_tdiv] at hneg
    omega
  · rw [Int.tdiv_eq_ediv_of_nonneg hn] at h ⊢
    omega

def packetEncode (buf : Cursor) (length : ℤ) : Option Cursor :=
  let d := UInt8.ofInt (length.tmod 128)
  let length' := length.tdiv 128
  if 0 < length' then (writeChar buf (d ||| 0x80)).bind fun buf => packetEncode buf length'
  else writeChar buf d
termination_by length.toNat
decreasing_by
  apply tdiv_lt
  assumption

def packetLen (remLen : ℤ) : Option ℤ := do
  let remLen ← intAdd remLen 1
  if remLen < 128 then intAdd remLen 1
  else if remLen < 16384 then intAdd remLen 2
  else if remLen < 2097151 then intAdd remLen 3
  else intAdd remLen 4

def readChar (buf : List UInt8) (ptr : ℕ) : Option (UInt8 × ℕ) :=
  buf[ptr]?.map fun c => (c, ptr+1)

def readInt (buf : List UInt8) (ptr : ℕ) : Option (ℕ × ℕ) := do
  let hi ← buf[ptr]?
  let lo ← buf[ptr+1]?
  return (256*hi.toNat+lo.toNat, ptr+2)

def readMqttLenString (s : MqttString) (buf : List UInt8) (pptr enddata : ℕ) :
    Option (Bool × MqttString × ℕ) :=
  if 1 < (enddata:ℤ)-pptr then do
    let (len,pptr) ← readInt buf pptr
    if pptr+len ≤ enddata then
      return (true, ⟨none, len, some (buf.drop pptr)⟩, pptr+len)
    else return (false, ⟨none, len, s.lenstring.data⟩, pptr)
  else return (false, ⟨none, s.lenstring⟩, pptr)

/-- The rest of the loop of `MQTTPacket_decode` when `left` more digits are allowed:
how many digits it counted, the value, and the source of the digits after them.
The value stays below `2^28`, so that `int` never overflows. -/
def decodeDigits {σ : Type} (getcharfn : σ → Option (Option UInt8 × σ)) :
    (left len value multiplier : ℕ) → σ → Option (ℕ × ℕ × σ)
  | 0, len, value, _, s => some (len+1, value, s)
  | left+1, len, value, multiplier, s => do
    match ← getcharfn s with
    | (none, s) => return (len+1, value, s)
    | (some c, s) =>
      let value := value+(c &&& 127).toNat*multiplier
      if c &&& 128 ≠ 0 then decodeDigits getcharfn left (len+1) value (multiplier*128) s
      else return (len+1, value, s)

def packetDecode {σ : Type} (getcharfn : σ → Option (Option UInt8 × σ)) (s : σ) :
    Option (ℕ × ℕ × σ) :=
  decodeDigits getcharfn 4 0 0 1 s

/-- `bufchar` with a count of 1: `bufptr` is the state. -/
def bufchar (buf : List UInt8) (bufptr : ℕ) : Option (Option UInt8 × ℕ) :=
  (readChar buf bufptr).map fun r => (some r.1, r.2)

/-- The number of bytes it says it read, and the value. -/
def packetDecodeBuf (buf : List UInt8) (ptr : ℕ) : Option (ℕ × ℕ) :=
  (packetDecode (bufchar buf) ptr).map fun r => (r.1, r.2.1)

theorem ofInt_natCast (n : ℕ) : UInt8.ofInt (n:ℤ) = UInt8.ofNat n := by
  apply UInt8.toNat_inj.mp
  unfold UInt8.ofInt
  rw [UInt8.toNat_ofNat', UInt8.toNat_ofNat']
  omega

theorem writeInt_natCast (ptr : Cursor) (n : ℕ) : writeInt ptr (n:ℤ) = ptr.put (be16 n) := by
  have hmod : UInt8.ofNat (n % 256) = UInt8.ofNat n := by
    apply UInt8.toNat_inj.mp
    rw [UInt8.toNat_ofNat', UInt8.toNat_ofNat']
    omega
  unfold writeInt be16
  rw [Int.tdiv_eq_ediv_of_nonneg (by omega), Int.tmod_eq_emod_of_nonneg (by omega)]
  rw [show (n:ℤ)/256 = ((n/256:ℕ):ℤ) by omega, show (n:ℤ)%256 = ((n%256:ℕ):ℤ) by omega,
    ofInt_natCast, ofInt_natCast, hmod]

theorem writeData_natCast (ptr : Cursor) (data : List UInt8) (n : ℕ) (h : n ≤ data.length) :
    writeData ptr data (n:ℤ) = ptr.put (data.take n) := by
  unfold writeData readAt
  rw [if_neg (by omega), Int.toNat_natCast, Nat.zero_add, if_pos h, List.drop_zero,
    Option.bind_some]

/-- The top bit of a byte. -/
theorem and_128_eq_zero_iff (c : UInt8) : c &&& 128 = 0 ↔ c.toNat < 128 := by
  have hc := c.toNat_lt
  have hbit : (c &&& 128).toNat = (c.toNat.testBit 7).toNat*128 := by
    rw [UInt8.toNat_and]
    exact Nat.and_two_pow c.toNat 7
  rw [← UInt8.toNat_inj, hbit, Nat.testBit_eq_decide_div_mod_eq]
  by_cases h : c.toNat < 128
  · have hdiv : c.toNat/128 % 2 = 0 := by omega
    simp [hdiv, h]
  · have hdiv : c.toNat/128 % 2 = 1 := by omega
    simp [hdiv, h]

theorem and_127_toNat (c : UInt8) : (c &&& 127).toNat = c.toNat % 128 := by
  rw [UInt8.toNat_and]
  exact Nat.and_two_pow_sub_one_eq_mod c.toNat 7

theorem or_128_toNat (c : UInt8) (h : c.toNat < 128) : (c ||| 128).toNat = c.toNat+128 := by
  have hor := Nat.two_pow_add_eq_or_of_lt (show c.toNat < 2^7 from h) 1
  rw [UInt8.toNat_or, Nat.or_comm, Nat.add_comm]
  exact hor.symm

/-- The loop stores the digits of the length. -/
theorem packetEncode_natCast (buf : Cursor) (n : ℕ) :
    packetEncode buf (n:ℤ) = buf.put (base128 n) := by
  induction n using Nat.strong_induction_on generalizing buf with
  | _ n ih =>
    have hdiv : (n:ℤ).tdiv 128 = ((n/128:ℕ):ℤ) := by
      rw [Int.tdiv_eq_ediv_of_nonneg (by omega)]
      omega
    have hmod : (n:ℤ).tmod 128 = ((n%128:ℕ):ℤ) := by
      rw [Int.tmod_eq_emod_of_nonneg (by omega)]
      omega
    rw [packetEncode, hdiv, hmod, ofInt_natCast]
    by_cases h : n < 128
    · rw [if_neg (by omega), base128_of_lt n h, Nat.mod_eq_of_lt h]
      rfl
    · have hdigit : UInt8.ofNat (n % 128) ||| 128 = UInt8.ofNat (n % 128+128) := by
        apply UInt8.toNat_inj.mp
        rw [or_128_toNat _ (by rw [toNat_ofNat _ (by omega)]; omega), toNat_ofNat _ (by omega),
          toNat_ofNat _ (by omega)]
      rw [if_pos (by omega), base128_of_ge n (by omega), ← List.singleton_append,
        Cursor.put_append, ← hdigit]
      congr 1
      funext buf
      exact ih (n/128) (by omega) buf

/-- The room `MQTTPacket_len` asks for: a digit too many for the two lengths before each
power of 128, and at most four digits from `2^28` on. -/
def roomFor (n : ℕ) : ℕ :=
  n+1+if n < 127 then 1 else if n < 16383 then 2 else if n < 2097150 then 3 else 4

theorem packetLen_natCast (n : ℕ) (h : n+5 < 2^31) : packetLen (n:ℤ) = some (roomFor n:ℤ) := by
  unfold packetLen roomFor
  rw [intAdd_of_range _ _ (by omega) (by omega), Option.bind_eq_bind, Option.bind_some]
  split_ifs <;> first | omega | (rw [intAdd_of_range _ _ (by omega) (by omega)]; rfl)

/-- The room asked for is enough exactly below `2^28`, and never two bytes too much. -/
theorem roomFor_bounds (n : ℕ) (h : n < 2^31) :
    (1+(base128 n).length+n ≤ roomFor n ↔ n < 2^28) ∧ roomFor n ≤ 2+(base128 n).length+n ∧
      1+(base128 n).length+n ≤ roomFor n+1 := by
  have h1 := base128_length_le_iff 0 n
  have h2 := base128_length_le_iff 1 n
  have h3 := base128_length_le_iff 2 n
  have h4 := base128_length_le_iff 3 n
  have h5 := base128_length_le_iff 4 n
  have hpos := base128_length_pos n
  unfold roomFor
  refine ⟨⟨?_,?_⟩,?_,?_⟩ <;> split_ifs <;> omega

/-- The loop of `MQTTPacket_decode` over any source of characters: `view` is what the
source still has to deliver. -/
theorem decodeDigits_eq {σ : Type} (getcharfn : σ → Option (Option UInt8 × σ))
    (view : σ → List UInt8) (hget : ∀ s b bs, view s = b :: bs →
      ∃ s', getcharfn s = some (some b,s') ∧ view s' = bs)
    (left len value multiplier : ℕ) (s : σ) (n : ℕ) (rest : List UInt8)
    (h : readBase128 left (view s) = some (n,rest)) :
    ∃ k s', decodeDigits getcharfn left len value multiplier s =
      some (len+k, value+n*multiplier, s') ∧ view s' = rest ∧ (view s).length = k+rest.length := by
  induction left generalizing len value multiplier s n with
  | zero => simp [readBase128] at h
  | succ left ih =>
    cases hview : view s with
    | nil => simp [hview, readBase128] at h
    | cons b bs =>
      obtain ⟨s',hs',hview'⟩ := hget s b bs hview
      rw [hview, readBase128] at h
      unfold decodeDigits
      rw [hs', Option.bind_eq_bind, Option.bind_some]
      by_cases hb : b.toNat < 128
      · rw [if_pos hb, Option.some.injEq, Prod.mk.injEq] at h
        obtain ⟨rfl,rfl⟩ := h
        refine ⟨1, s', ?_, hview', by rw [List.length_cons, Nat.add_comm]⟩
        simp only [(and_128_eq_zero_iff b).mpr hb, ne_eq, not_true_eq_false, if_false,
          and_127_toNat, Nat.mod_eq_of_lt hb]
        rfl
      · rw [if_neg hb] at h
        obtain ⟨⟨m,rest'⟩,hm,hn⟩ := Option.map_eq_some_iff.mp h
        obtain ⟨rfl,rfl⟩ := Prod.mk.inj hn
        rw [← hview'] at hm
        obtain ⟨k,s'',hrun,hend,hlen⟩ := ih (len+1) (value+(b &&& 127).toNat*multiplier)
          (multiplier*128) s' m hm
        refine ⟨k+1, s'', ?_, hend, ?_⟩
        · have hb256 := b.toNat_lt
          have hbit : b &&& 128 ≠ 0 := fun h0 => hb ((and_128_eq_zero_iff b).mp h0)
          have hvalue : value+(b &&& 127).toNat*multiplier+m*(multiplier*128) =
              value+(b.toNat-128+128*m)*multiplier := by
            rw [and_127_toNat, show b.toNat % 128 = b.toNat-128 by omega]
            ring
          simp only [hbit, ne_eq, not_false_eq_true, if_true]
          rw [hrun, hvalue, Nat.add_assoc len 1 k, Nat.add_comm 1 k]
        · rw [hview'] at hlen
          rw [List.length_cons, hlen]
          omega

theorem readChar_of_drop (buf : List UInt8) (ptr : ℕ) (b : UInt8) (bs : List UInt8)
    (h : buf.drop ptr = b :: bs) : readChar buf ptr = some (b,ptr+1) ∧ buf.drop (ptr+1) = bs := by
  have hget : buf[ptr]? = some b := by
    rw [← Nat.add_zero ptr, ← List.getElem?_drop, h]
    rfl
  unfold readChar
  rw [hget, ← List.drop_drop, h]
  exact ⟨rfl,rfl⟩

/-- A remaining length below `2^28` is read back, with the count of its digits. -/
theorem packetDecodeBuf_of_drop (buf : List UInt8) (ptr n : ℕ) (rest : List UInt8) (hn : n < 2^28)
    (h : buf.drop ptr = base128 n ++ rest) :
    packetDecodeBuf buf ptr = some ((base128 n).length, n) := by
  have hread : readBase128 4 (buf.drop ptr) = some (n,rest) := by
    rw [h]
    exact readBase128_base128 3 n rest hn
  obtain ⟨k,s',hrun,hend,hlen⟩ := decodeDigits_eq (bufchar buf) (fun ptr => buf.drop ptr)
    (fun s b bs hs => by
      obtain ⟨hc,hdrop⟩ := readChar_of_drop buf s b bs hs
      refine ⟨s+1, ?_, hdrop⟩
      unfold bufchar
      rw [hc]
      rfl) 4 0 0 1 ptr n rest hread
  rw [h, List.length_append] at hlen
  have hk : k = (base128 n).length := by omega
  unfold packetDecodeBuf packetDecode
  rw [hrun, hk, Option.map_some, Nat.zero_add, Nat.zero_add, Nat.mul_one]

theorem drop_add_length (buf : List UInt8) (ptr : ℕ) (as bs : List UInt8)
    (h : buf.drop ptr = as ++ bs) : buf.drop (ptr+as.length) = bs := by
  rw [← List.drop_drop, h, List.drop_left' rfl]

theorem readInt_of_drop (buf : List UInt8) (ptr : ℕ) (hi lo : UInt8) (bs : List UInt8)
    (h : buf.drop ptr = hi :: lo :: bs) :
    readInt buf ptr = some (256*hi.toNat+lo.toNat, ptr+2) ∧ buf.drop (ptr+2) = bs := by
  have hget (i : ℕ) : buf[ptr+i]? = (hi :: lo :: bs)[i]? := by
    rw [← List.getElem?_drop, h]
  have hhi := hget 0
  have hlo := hget 1
  rw [Nat.add_zero] at hhi
  unfold readInt
  rw [hhi, hlo, ← List.drop_drop, h]
  exact ⟨rfl,rfl⟩

/-- What is read as a string: the bytes up to `enddata` start with it. -/
theorem readMqttLenString_of_readPrefixed (s : MqttString) (buf : List UInt8) (ptr : ℕ)
    (body rest topic tail : List UInt8) (h : buf.drop ptr = body ++ rest)
    (hbody : readPrefixed body = some (topic,tail)) :
    readMqttLenString s buf ptr (ptr+body.length) =
      some (true, ⟨none, topic.length, some (topic ++ tail ++ rest)⟩, ptr+2+topic.length) := by
  obtain ⟨rfl,hlen⟩ := (readPrefixed_eq_some_iff _ _ _).mp hbody
  have hdrop : buf.drop ptr = UInt8.ofNat (topic.length/256) :: UInt8.ofNat topic.length ::
      (topic ++ tail ++ rest) := by
    rw [h, List.append_assoc, List.append_assoc]
    rfl
  obtain ⟨hint,hafter⟩ := readInt_of_drop buf ptr _ _ _ hdrop
  rw [be16_value _ hlen] at hint
  unfold readMqttLenString
  rw [List.length_append, prefixed_length, if_pos (by omega), hint, Option.bind_eq_bind,
    Option.bind_some]
  simp only [if_pos (show ptr+2+topic.length ≤ ptr+(2+topic.length+tail.length) by omega), hafter]
  rfl

end CppOperate.Mqtt
