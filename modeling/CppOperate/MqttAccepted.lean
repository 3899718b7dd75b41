import CppOperate.MqttDeserialize
import Mathlib

/-! Which packets the functions that read them accept. Most return the number of bytes
of the remaining length where they mean to report an error, so that a packet with a
short rest passes whatever it holds. -/
namespace CppOperate.Mqtt
open ByteMemory CStrings WireFormats

/-- The count of length bytes is taken for success exactly for a rest below 128. -/
theorem base128_length_eq_one_iff (n : ℕ) : (base128 n).length = 1 ↔ n < 128 := by
  have hle := base128_length_le_iff 0 n
  have hpos := base128_length_pos n
  omega

section Publish
variable (out : PublishOut) (header : MqttHeader) (body rest topic tail : List UInt8)

/-- The variables once the topic is read and `more` is what follows the packet id. -/
def PublishOut.filled (packetid : UInt16) (more : List UInt8) (payloadlen : ℤ) : PublishOut :=
  { out.setHeader header with
    topicName := ⟨none, topic.length, some (topic ++ tail ++ rest)⟩
    packetid := packetid
    payload := more
    payloadlen := payloadlen }

/-- The common part of the two cases below: up to the packet id. -/
theorem deserializePublish_of_some (hlen : body.length < 2^28)
    (htype : header.type.toNat = MsgType.publish.code)
    (hbody : readPrefixed body = some (topic,tail)) :
    ∃ ptr, (frame header body ++ rest).drop ptr = tail ++ rest ∧
      deserializePublish out (frame header body ++ rest) =
        (if 0 < header.qos.toNat then
          (readInt (frame header body ++ rest) ptr).map fun r =>
            (1, out.filled header rest topic tail (UInt16.ofNat r.1)
              ((frame header body ++ rest).drop r.2) ((ptr+tail.length:ℤ)-r.2))
        else some (1, out.filled header rest topic tail out.packetid (tail ++ rest) tail.length)) := by
  obtain ⟨hchar,hdecode,hdrop⟩ := frame_reads header body rest hlen
  have hread := readMqttLenString_of_readPrefixed (out.setHeader header).topicName
    (frame header body ++ rest) _ body rest topic tail hdrop hbody
  obtain ⟨rfl,-⟩ := (readPrefixed_eq_some_iff _ _ _).mp hbody
  have htail : (frame header (prefixed topic ++ tail) ++ rest).drop
      (1+(base128 (prefixed topic ++ tail).length).length+2+topic.length) = tail ++ rest := by
    have := drop_add_length _ _ (prefixed topic) (tail ++ rest) (by rw [hdrop, List.append_assoc])
    rwa [prefixed_length, ← Nat.add_assoc] at this
  refine ⟨_, htail, ?_⟩
  have hbodyLen : (prefixed topic ++ tail).length = 2+topic.length+tail.length := by
    rw [List.length_append, prefixed_length]
  have hend : ((1+(base128 (prefixed topic ++ tail).length).length+
      (prefixed topic ++ tail).length:ℕ):ℤ) =
      (1+(base128 (prefixed topic ++ tail).length).length+2+topic.length:ℕ)+tail.length := by
    rw [hbodyLen]
    push_cast
    ring
  have hqos : (out.setHeader header).qos = header.qos.toNat := rfl
  unfold deserializePublish
  simp only [hchar, Option.bind_eq_bind, Option.bind_some, MqttHeader.ofByte_byte, htype, hdecode,
    ne_eq, not_true_eq_false, if_false, hread, hend, hqos, Nat.cast_pos]
  rw [if_neg (by simp)]
  by_cases hpos : 0 < header.qos.toNat
  · rw [if_pos hpos, if_pos hpos]
    cases readInt (frame header (prefixed topic ++ tail) ++ rest)
      (1+(base128 (prefixed topic ++ tail).length).length+2+topic.length) <;> rfl
  · rw [if_neg hpos, if_neg hpos, Option.bind_some, htail, add_sub_cancel_left]
    rfl

end Publish

section Acks
variable (header : MqttHeader) (body rest : List UInt8)

/-- A rest too short for a packet id: its length took one byte, which reads as success. -/
theorem short_rest_code (hbody : body.length < 2) : (((base128 body.length).length : ℕ):ℤ) = 1 := by
  have hone := (base128_length_eq_one_iff body.length).mpr (by omega)
  rw [hone]
  rfl

theorem exists_of_not_short (h : ¬ body.length < 2) : ∃ hi lo bs, body = hi :: lo :: bs := by
  match body, h with
  | [], h => exact absurd (by decide) h
  | [b], h => exact absurd Nat.one_lt_two h
  | hi :: lo :: bs, _ => exact ⟨hi,lo,bs,rfl⟩

/-- The packet id in front, or what the variable held before. -/
def idOr (packetid : UInt16) : List UInt8 → UInt16
  | hi :: lo :: _ => UInt16.ofNat (256*hi.toNat+lo.toNat)
  | _ => packetid

/-- `MQTTDeserialize_ack` succeeds on every packet; with a rest too short for a packet id
the caller's variable is left as it was. -/
theorem deserializeAck_frame (out : AckOut) (hlen : body.length < 2^28) :
    deserializeAck out (frame header body ++ rest) = some (1,
      { packettype := header.type.toNat, dup := UInt8.ofNat header.dup.toNat,
        packetid := idOr out.packetid body }) := by
  obtain ⟨hchar,hdecode,hdrop⟩ := frame_reads header body rest hlen
  unfold deserializeAck
  simp only [hchar, Option.bind_eq_bind, Option.bind_some, MqttHeader.ofByte_byte, hdecode,
    Nat.cast_add, add_sub_cancel_left]
  by_cases hshort : body.length < 2
  · rw [if_pos (by exact_mod_cast hshort), short_rest_code body hshort]
    match body, hshort with
    | [], _ => rfl
    | [b], _ => rfl
  · obtain ⟨hi,lo,bs,rfl⟩ := exists_of_not_short body hshort
    obtain ⟨hint,-⟩ := readInt_of_drop _ _ hi lo (bs ++ rest) hdrop
    rw [if_neg (by exact_mod_cast hshort), hint]
    rfl

/-- So does `MQTTDeserialize_unsuback`, whatever the type of the packet. -/
theorem deserializeUnsuback_frame (packetid : UInt16) (hlen : body.length < 2^28) :
    deserializeUnsuback packetid (frame header body ++ rest) = some (1, idOr packetid body) := by
  unfold deserializeUnsuback
  rw [deserializeAck_frame header body rest _ hlen]
  simp only [Option.bind_eq_bind, Option.bind_some, ite_self]
  rfl

/-- The two bytes of a CONNACK, or what the variables held before. -/
def ConnackOut.orBody (out : ConnackOut) : List UInt8 → ConnackOut
  | flags :: connackRc :: _ => ⟨connackFlags flags, connackRc⟩
  | _ => out

/-- `MQTTDeserialize_connack` succeeds on every CONNACK; without its two bytes the
caller's variables are left as they were. -/
theorem deserializeConnack_frame (out : ConnackOut) (hlen : body.length < 2^28) :
    deserializeConnack out (frame header body ++ rest) =
      if header.type.toNat = MsgType.connack.code then some (1, out.orBody body)
      else some (0,out) := by
  obtain ⟨hchar,hdecode,hdrop⟩ := frame_reads header body rest hlen
  unfold deserializeConnack
  simp only [hchar, Option.bind_eq_bind, Option.bind_some, MqttHeader.ofByte_byte, hdecode,
    Nat.cast_add, add_sub_cancel_left]
  by_cases htype : header.type.toNat = MsgType.connack.code
  · rw [if_neg (not_not.mpr htype), if_pos htype]
    by_cases hshort : body.length < 2
    · rw [if_pos (by exact_mod_cast hshort), short_rest_code body hshort]
      match body, hshort with
      | [], _ => rfl
      | [b], _ => rfl
    · obtain ⟨flags,connackRc,bs,rfl⟩ := exists_of_not_short body hshort
      obtain ⟨hflags,hafter⟩ := readChar_of_drop _ _ flags (connackRc :: (bs ++ rest)) hdrop
      obtain ⟨hrc,-⟩ := readChar_of_drop _ _ connackRc (bs ++ rest) hafter
      rw [if_neg (by exact_mod_cast hshort), hflags, Option.bind_some, hrc]
      rfl
  · rw [if_pos htype, if_neg htype]
    rfl

/-- The loop over the return codes, for an array with room for `room` of them. -/
theorem subackCodes_eq (signed : Bool) (maxcount : ℕ) (buf codes rest : List UInt8)
    (curdata : ℕ) (before after : List ℤ) (hdrop : buf.drop curdata = codes ++ rest)
    (hroom : before.length+after.length = maxcount) :
    subackCodes signed maxcount buf codes.length curdata before.length (before ++ after) =
      if codes.length ≤ after.length then
        some (1, before.length+codes.length,
          before ++ codes.map (charToInt signed) ++ after.drop codes.length)
      else none := by
  induction codes generalizing curdata before after with
  | nil =>
    simp only [List.length_nil, subackCodes, Nat.zero_le, if_true, List.map_nil, List.append_nil,
      Nat.add_zero, List.drop_zero]
  | cons c codes ih =>
    obtain ⟨hchar,hnext⟩ := readChar_of_drop buf curdata c (codes ++ rest) hdrop
    rw [List.length_cons, subackCodes, if_neg (by omega), hchar, Option.bind_eq_bind,
      Option.bind_some]
    cases after with
    | nil =>
      have hfull : writeAt (before ++ []) before.length [charToInt signed c] = none := by
        unfold writeAt
        rw [if_neg (by rw [List.append_nil, List.length_singleton]; omega)]
      simp only [hfull]
      rw [if_neg (by rw [List.length_nil]; omega)]
      rfl
    | cons x after =>
      have hwrite : writeAt (before ++ x :: after) before.length [charToInt signed c] =
          some ((before ++ [charToInt signed c]) ++ after) := by
        rw [writeAt_eq_some_iff_exists]
        exact ⟨before, [x], after, rfl, rfl, rfl, by rw [List.append_assoc]⟩
      have hrec := ih (curdata+1) (before ++ [charToInt signed c]) after hnext
        (by rw [List.length_append, List.length_singleton]; rw [List.length_cons] at hroom; omega)
      rw [List.length_append, List.length_singleton] at hrec
      simp only [hwrite, Option.bind_eq_bind, Option.bind_some]
      rw [hrec, Nat.add_right_comm, Nat.add_assoc before.length]
      simp only [List.length_cons, Nat.add_le_add_iff_right, List.map_cons, List.drop_succ_cons,
        List.append_assoc, List.cons_append, List.nil_append]

/-- What a SUBACK leaves in the caller's variables: nothing without a packet id, and
`none` where it has more codes than the array has entries. -/
def SubackOut.orBody (signed : Bool) (out : SubackOut) : List UInt8 → Option SubackOut
  | hi :: lo :: codes =>
    if codes.length ≤ out.grantedQoSs.length then
      some ⟨UInt16.ofNat (256*hi.toNat+lo.toNat), codes.length,
        codes.map (charToInt signed) ++ out.grantedQoSs.drop codes.length⟩
    else none
  | _ => some out

theorem SubackOut.orBody_isSome_iff (signed : Bool) (out : SubackOut) (body : List UInt8) :
    (out.orBody signed body).isSome ↔ body.length ≤ out.grantedQoSs.length+2 := by
  match body with
  | [] => exact iff_of_true rfl (Nat.zero_le _)
  | [b] => exact iff_of_true rfl (Nat.succ_le_succ (Nat.zero_le _))
  | hi :: lo :: codes =>
    simp only [SubackOut.orBody, List.length_cons, Nat.add_le_add_iff_right]
    split_ifs with hroom
    · exact iff_of_true rfl hroom
    · exact iff_of_false Bool.false_ne_true hroom

/-- `MQTTDeserialize_suback`, given an array of `maxcount` entries as its comment asks:
it never reports too many codes but writes past the array. -/
theorem deserializeSuback_frame (signed : Bool) (out : SubackOut) (hlen : body.length < 2^28) :
    deserializeSuback signed out.grantedQoSs.length out (frame header body ++ rest) =
      if header.type.toNat = MsgType.suback.code then (out.orBody signed body).map fun o => (1,o)
      else some (0,out) := by
  obtain ⟨hchar,hdecode,hdrop⟩ := frame_reads header body rest hlen
  unfold deserializeSuback
  simp only [hchar, Option.bind_eq_bind, Option.bind_some, MqttHeader.ofByte_byte, hdecode,
    Nat.cast_add, add_sub_cancel_left]
  by_cases htype : header.type.toNat = MsgType.suback.code
  · rw [if_neg (not_not.mpr htype), if_pos htype]
    by_cases hshort : body.length < 2
    · rw [if_pos (by exact_mod_cast hshort), short_rest_code body hshort]
      match body, hshort with
      | [], _ => rfl
      | [b], _ => rfl
    · obtain ⟨hi,lo,codes,rfl⟩ := exists_of_not_short body hshort
      obtain ⟨hint,hafter⟩ := readInt_of_drop _ _ hi lo (codes ++ rest) hdrop
      have hcodes := subackCodes_eq signed out.grantedQoSs.length _ codes rest _ []
        out.grantedQoSs hafter (Nat.zero_add _)
      have hleft (n : ℕ) : 1+n+(hi :: lo :: codes).length-(1+n+2) = codes.length := by
        rw [List.length_cons, List.length_cons]
        omega
      rw [if_neg (by exact_mod_cast hshort), hint]
      simp only [Option.bind_some, hleft]
      rw [List.length_nil, List.nil_append] at hcodes
      rw [hcodes]
      simp only [SubackOut.orBody]
      split_ifs
      · simp only [Option.bind_some, Nat.zero_add, List.nil_append]
        rfl
      · rfl
  · rw [if_pos htype, if_neg htype]
    rfl

/-- Which packets the functions for the four answers of a server report as read: the first
two any packet at all, the third any CONNACK, the last any SUBACK whose codes fit the
array; one with more codes is written past the array. -/
theorem answers_accepted (signed : Bool) (ack : AckOut) (packetid : UInt16) (connack : ConnackOut)
    (suback : SubackOut) (hlen : body.length < 2^28) :
    (∃ got, deserializeAck ack (frame header body ++ rest) = some (1,got)) ∧
    (∃ got, deserializeUnsuback packetid (frame header body ++ rest) = some (1,got)) ∧
    ((∃ got, deserializeConnack connack (frame header body ++ rest) = some (1,got)) ↔
      header.type.toNat = MsgType.connack.code) ∧
    ((∃ got, deserializeSuback signed suback.grantedQoSs.length suback (frame header body ++ rest) =
        some (1,got)) ↔
      header.type.toNat = MsgType.suback.code ∧ body.length ≤ suback.grantedQoSs.length+2) ∧
    (deserializeSuback signed suback.grantedQoSs.length suback (frame header body ++ rest) = none ↔
      header.type.toNat = MsgType.suback.code ∧ suback.grantedQoSs.length+2 < body.length) := by
  have hack := deserializeAck_frame header body rest ack hlen
  have hunsuback := deserializeUnsuback_frame header body rest packetid hlen
  refine ⟨⟨_,hack⟩, ⟨_,hunsuback⟩, ?_, ?_⟩
  · rw [deserializeConnack_frame header body rest connack hlen]
    split_ifs with htype
    · exact iff_of_true ⟨_,rfl⟩ htype
    · apply iff_of_false _ htype
      rintro ⟨got,hgot⟩
      simp at hgot
  · rw [deserializeSuback_frame header body rest signed suback hlen]
    split_ifs with htype
    · rw [and_iff_right htype, and_iff_right htype, ← not_le, ← suback.orBody_isSome_iff signed body]
      cases suback.orBody signed body <;> simp
    · simp [htype]

/-- A CONNACK, a SUBACK with two codes for an array of two, and one with three. -/
theorem answers_accepted_three :
    (∃ got, deserializeConnack ⟨0,0⟩ (frame (headerOf .connack 0 0 0) [0,5] ++ []) = some (1,got)) ∧
    (∃ got, deserializeSuback true 2 ⟨0,0,[0,0]⟩ (frame (headerOf .suback 0 0 0) [0,1,2,1] ++ []) =
      some (1,got)) ∧
    deserializeSuback true 2 ⟨0,0,[0,0]⟩ (frame (headerOf .suback 0 0 0) [0,1,2,1,0] ++ []) = none := by
  refine ⟨?_, ?_, ?_⟩
  · exact (answers_accepted (headerOf .connack 0 0 0) [0,5] [] true ⟨0,0,0⟩ 0 ⟨0,0⟩ ⟨0,0,[]⟩
      (by decide)).2.2.1.mpr rfl
  · exact (answers_accepted (headerOf .suback 0 0 0) [0,1,2,1] [] true ⟨0,0,0⟩ 0 ⟨0,0⟩ ⟨0,0,[0,0]⟩
      (by decide)).2.2.2.1.mpr ⟨rfl, by decide⟩
  · exact (answers_accepted (headerOf .suback 0 0 0) [0,1,2,1,0] [] true ⟨0,0,0⟩ 0 ⟨0,0⟩ ⟨0,0,[0,0]⟩
      (by decide)).2.2.2.2.mpr ⟨rfl, by decide⟩

end Acks

end CppOperate.Mqtt
