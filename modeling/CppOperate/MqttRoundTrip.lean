import CppOperate.MqttAccepted
import Mathlib

/-! What one side writes the other side reads back: for every packet that fits its
buffer, whatever the buffer held and whatever the reader's variables held. -/
namespace CppOperate.Mqtt
open ByteMemory CStrings WireFormats

/-- The outcome of the functions that measure the packet first, in a buffer of at least
the length they are told. -/
theorem measured_cases (buf : List UInt8) (buflen : ℤ) (header : MqttHeader) (body : List UInt8)
    (hlen : body.length < 2^28) (hbuf : buflen ≤ buf.length) :
    buflen < roomFor body.length ∧ measured buf buflen header body = some (bufferTooShort, buf) ∨
      roomFor body.length ≤ buflen ∧ ((frame header body).length:ℤ) ≤ buflen ∧
        measured buf buflen header body = some (((frame header body).length:ℤ),
          frame header body ++ buf.drop (frame header body).length) := by
  obtain ⟨hroom,-,-⟩ := roomFor_bounds body.length (by omega)
  have hframe := frame_length header body
  have hle := hroom.mpr hlen
  unfold measured stored
  by_cases hshort : buflen < roomFor body.length
  · exact Or.inl ⟨hshort, if_pos hshort⟩
  · right
    rw [if_neg hshort, if_pos (by omega)]
    exact ⟨by omega, by omega, rfl⟩

theorem headerOf_type (type : MsgType) (dup : UInt8) (qos : ℤ) (retain : UInt8) :
    (headerOf type dup qos retain).type.toNat = type.code := by
  cases type <;> rfl

theorem headerOf_dup (type : MsgType) (dup : UInt8) (qos : ℤ) (retain : UInt8)
    (h : dup.toNat < 2) : UInt8.ofNat (headerOf type dup qos retain).dup.toNat = dup := by
  apply UInt8.toNat_inj.mp
  unfold headerOf
  rw [BitVec.toNat_ofNat, Nat.mod_eq_of_lt h, UInt8.toNat_ofNat']
  omega

theorem headerOf_retain (type : MsgType) (dup : UInt8) (qos : ℤ) (retain : UInt8)
    (h : retain.toNat < 2) :
    UInt8.ofNat (headerOf type dup qos retain).retain.toNat = retain := by
  apply UInt8.toNat_inj.mp
  unfold headerOf
  rw [BitVec.toNat_ofNat, Nat.mod_eq_of_lt h, UInt8.toNat_ofNat']
  omega

theorem headerOf_qos (type : MsgType) (dup : UInt8) (qos : ℤ) (retain : UInt8)
    (h0 : 0 ≤ qos) (h : qos < 4) : ((headerOf type dup qos retain).qos.toNat : ℤ) = qos := by
  unfold headerOf
  rw [BitVec.toNat_ofInt]
  omega

theorem ofNat_be16 (id : UInt16) :
    UInt16.ofNat (256*(UInt8.ofNat (id.toNat/256)).toNat+(UInt8.ofNat id.toNat).toNat) = id := by
  rw [be16_value _ id.toNat_lt]
  exact UInt16.ofNat_toNat

/-- The fields of a PUBLISH, whatever follows it in memory. -/
theorem deserializePublish_publishBody (dup : UInt8) (qos : ℤ) (retained : UInt8)
    (packetid : UInt16) (topic payload rest : List UInt8) (htopic : topic.length < 65536)
    (hlen : (publishBody qos topic packetid payload).length < 2^28) (hdup : dup.toNat < 2)
    (hretained : retained.toNat < 2) (hqos0 : 0 ≤ qos) (hqos : qos < 4) (out : PublishOut) :
    ∃ got, deserializePublish out (frame (headerOf .publish dup qos retained)
        (publishBody qos topic packetid payload) ++ rest) = some (1,got) ∧
      got.dup = dup ∧ got.qos = qos ∧ got.retained = retained ∧
      (0 < qos → got.packetid = packetid) ∧ got.topicName.Holds topic ∧
      got.payloadlen = payload.length ∧ got.payload.take payload.length = payload := by
  have hbits := headerOf_qos .publish dup qos retained hqos0 hqos
  have hdup' := headerOf_dup .publish dup qos retained hdup
  have hretained' := headerOf_retain .publish dup qos retained hretained
  have hholds (tail : List UInt8) :
      MqttString.Holds ⟨none, topic.length, some (topic ++ tail ++ rest)⟩ topic := by
    rw [List.append_assoc]
    exact .counted topic _
  by_cases hpos : 0 < qos
  · have hbody : readPrefixed (publishBody qos topic packetid payload) =
        some (topic, be16 packetid.toNat ++ payload) := by
      unfold publishBody
      rw [if_pos hpos, List.append_assoc]
      exact readPrefixed_prefixed topic _ htopic
    obtain ⟨ptr,hdrop,hrun⟩ := deserializePublish_of_some out _ _ rest topic _ hlen
      (headerOf_type .publish dup qos retained) hbody
    obtain ⟨hint,hafter⟩ := readInt_of_drop _ ptr _ _ (payload ++ rest) hdrop
    rw [if_pos (show 0 < (headerOf .publish dup qos retained).qos.toNat by omega), hint] at hrun
    refine ⟨_, hrun, hdup', hbits, hretained', ?_, ?_, ?_, ?_⟩
    · intro _
      exact ofNat_be16 packetid
    · exact hholds _
    · show (ptr+(be16 packetid.toNat ++ payload).length:ℤ)-(ptr+2:ℕ) = payload.length
      rw [List.length_append, be16_length]
      push_cast
      ring
    · show (List.drop (ptr+2) _).take payload.length = payload
      rw [hafter, List.take_left' rfl]
  · have hbody : readPrefixed (publishBody qos topic packetid payload) = some (topic,payload) := by
      unfold publishBody
      rw [if_neg hpos, List.append_nil]
      exact readPrefixed_prefixed topic _ htopic
    obtain ⟨ptr,hdrop,hrun⟩ := deserializePublish_of_some out _ _ rest topic _ hlen
      (headerOf_type .publish dup qos retained) hbody
    rw [if_neg (show ¬ 0 < (headerOf .publish dup qos retained).qos.toNat by omega)] at hrun
    refine ⟨_, hrun, hdup', hbits, hretained', ?_, ?_, rfl, ?_⟩
    · intro h
      exact absurd h hpos
    · exact hholds _
    · exact List.take_left' rfl

/-- A PUBLISH of a topic whose length two bytes can hold: either the buffer is shorter
than the room asked for and untouched, or the packet is in front of the old contents
and every field is read back from it. -/
theorem publish_read_back (buf : List UInt8) (buflen : ℤ) (dup : UInt8) (qos : ℤ) (retained : UInt8)
    (packetid : UInt16) (topicName : MqttString) (topic payload : List UInt8)
    (htopic : topicName.Holds topic) (htopicLen : topic.length < 65536)
    (hlen : (publishBody qos topic packetid payload).length < 2^28) (hbuf : buflen ≤ buf.length)
    (hdup : dup.toNat < 2) (hretained : retained.toNat < 2) (hqos0 : 0 ≤ qos) (hqos : qos < 4) :
    buflen < roomFor (publishBody qos topic packetid payload).length ∧
      serializePublish buf buflen dup qos retained packetid topicName payload payload.length =
        some (bufferTooShort, buf) ∨
    roomFor (publishBody qos topic packetid payload).length ≤ buflen ∧
    ∃ packet, (packet.length:ℤ) ≤ buflen ∧
      serializePublish buf buflen dup qos retained packetid topicName payload payload.length =
        some ((packet.length:ℤ), packet ++ buf.drop packet.length) ∧
      ∀ out, ∃ got, deserializePublish out (packet ++ buf.drop packet.length) = some (1,got) ∧
        got.dup = dup ∧ got.qos = qos ∧ got.retained = retained ∧
        (0 < qos → got.packetid = packetid) ∧ got.topicName.Holds topic ∧
        got.payloadlen = payload.length ∧ got.payload.take payload.length = payload := by
  have hbodyLen : topic.length+payload.length+2 ≤ (publishBody qos topic packetid payload).length := by
    unfold publishBody
    rw [List.length_append, List.length_append, prefixed_length]
    omega
  rw [serializePublish_eq buf buflen dup qos retained packetid topicName topic payload htopic
    (by omega)]
  apply (measured_cases buf buflen _ _ hlen hbuf).imp id
  rintro ⟨hroom,hle,hrun⟩
  exact ⟨hroom, _, hle, hrun, deserializePublish_publishBody dup qos retained packetid topic payload _
    htopicLen hlen hdup hretained hqos0 hqos⟩

/-- A retained message with QoS 1 on the topic `a`, in a buffer of nine bytes. -/
theorem publish_read_back_hi : ∃ packet, (packet.length:ℤ) ≤ 9 ∧ ∀ out, ∃ got,
    deserializePublish out (packet ++ (List.replicate 9 0).drop packet.length) = some (1,got) ∧
      got.payload.take 2 = [104,105] := by
  have hback := publish_read_back (List.replicate 9 0) 9 0 1 1 513 (.ofC ⟨[97], by decide⟩) [97]
    [104,105] (MqttString.holds_ofC _) (by decide) (by decide) (by decide) (by decide) (by decide)
    (by decide) (by decide)
  rcases hback with ⟨hshort,-⟩ | ⟨-,packet,hle,-,hread⟩
  · exact absurd hshort (by decide)
  · refine ⟨packet, hle, ?_⟩
    intro out
    obtain ⟨got,hgot,-,-,-,-,-,-,hpayload⟩ := hread out
    exact ⟨got, hgot, hpayload⟩

/-- One string of a list of them: where it ends, and that the reader's string holds it. -/
theorem readMqttLenString_prefixed (s : MqttString) (buf : List UInt8) (ptr : ℕ)
    (bs more rest : List UInt8) (hlen : bs.length < 65536)
    (hdrop : buf.drop ptr = prefixed bs ++ (more ++ rest)) :
    ∃ s', readMqttLenString s buf ptr (ptr+(prefixed bs ++ more).length) =
      some (true, s', ptr+2+bs.length) ∧ s'.Holds bs ∧ buf.drop (ptr+2+bs.length) = more ++ rest := by
  have hbody := readPrefixed_prefixed bs more hlen
  refine ⟨_, readMqttLenString_of_readPrefixed s buf ptr _ rest bs more
    (by rw [hdrop, List.append_assoc]) hbody, ?_, ?_⟩
  · rw [List.append_assoc]
    exact .counted bs _
  · have hafter := drop_add_length buf ptr _ _ hdrop
    rwa [prefixed_length, ← Nat.add_assoc] at hafter

theorem set_append_cons {α : Type} (before after : List α) (x y : α) :
    (before ++ x :: after).set before.length y = (before ++ [y]) ++ after := by
  rw [List.set_append_right _ _ le_rfl, Nat.sub_self, List.set_cons_zero, List.append_assoc]
  rfl

/-- The loop over the topic filters of a SUBSCRIBE, for arrays with room for them. -/
theorem subscribeFilters_eq (signed : Bool) (buf rest : List UInt8)
    (subs : List (List UInt8 × UInt8)) (hsubs : ∀ s ∈ subs, s.1.length < 65536) (ptr : ℕ)
    (dup : UInt8) (packetid : UInt16) (strings spare : List MqttString) (codes spareCodes : List ℤ)
    (hcodes : codes.length = strings.length) (hspare : subs.length ≤ spare.length)
    (hspareCodes : subs.length ≤ spareCodes.length)
    (hdrop : buf.drop ptr = (subs.flatMap fun s => prefixed s.1 ++ [s.2]) ++ rest) :
    ∃ filters, List.Forall₂ MqttString.Holds filters (subs.map fun s => s.1) ∧
      subscribeFilters signed buf (ptr+(subs.flatMap fun s => prefixed s.1 ++ [s.2]).length) ptr
        ⟨dup, packetid, strings.length, strings ++ spare, codes ++ spareCodes⟩ =
        some (true, ⟨dup, packetid, strings.length+subs.length,
          strings ++ filters ++ spare.drop subs.length,
          codes ++ (subs.map fun s => charToInt signed s.2) ++ spareCodes.drop subs.length⟩) := by
  induction subs generalizing ptr strings spare codes spareCodes with
  | nil =>
    refine ⟨[], .nil, ?_⟩
    rw [subscribeFilters, if_neg (by simp)]
    simp
  | cons sub subs ih =>
    obtain ⟨bs,qos⟩ := sub
    obtain ⟨x,spare,rfl⟩ := List.exists_cons_of_length_pos (show 0 < spare.length from
      (Nat.succ_pos _).trans_le hspare)
    obtain ⟨y,spareCodes,rfl⟩ := List.exists_cons_of_length_pos (show 0 < spareCodes.length from
      (Nat.succ_pos _).trans_le hspareCodes)
    let more := subs.flatMap fun s => prefixed s.1 ++ [s.2]
    have hflat : (((bs,qos) :: subs).flatMap fun s => prefixed s.1 ++ [s.2]) =
        prefixed bs ++ (qos :: more) := by
      rw [List.flatMap_cons, List.append_assoc]
      rfl
    rw [hflat] at hdrop ⊢
    obtain ⟨s',hread,hholds,hnext⟩ := readMqttLenString_prefixed x buf ptr bs (qos :: more) rest
      (hsubs _ List.mem_cons_self) (by rw [hdrop, List.append_assoc])
    obtain ⟨hchar,hafter⟩ := readChar_of_drop buf _ qos (more ++ rest) hnext
    have hget : (strings ++ x :: spare)[strings.length]? = some x := by
      rw [List.getElem?_append_right le_rfl, Nat.sub_self]
      rfl
    have hwrite : writeAt (codes ++ y :: spareCodes) strings.length [charToInt signed qos] =
        some ((codes ++ [charToInt signed qos]) ++ spareCodes) := by
      rw [writeAt_eq_some_iff_exists]
      exact ⟨codes, [y], spareCodes, rfl, hcodes, rfl, by rw [List.append_assoc]⟩
    have hend : ptr+(prefixed bs ++ (qos :: more)).length = ptr+2+bs.length+1+more.length := by
      rw [List.length_append, prefixed_length, List.length_cons]
      omega
    have hlen : (strings ++ [s']).length = strings.length+1 := by
      rw [List.length_append, List.length_singleton]
    obtain ⟨filters,hfilters,hrun⟩ := ih (fun s hs => hsubs s (List.mem_cons_of_mem _ hs))
      (ptr+2+bs.length+1) (strings ++ [s']) spare (codes ++ [charToInt signed qos]) spareCodes
      (by rw [List.length_append, List.length_singleton, hlen, hcodes])
      (Nat.le_of_succ_le_succ hspare) (Nat.le_of_succ_le_succ hspareCodes) hafter
    refine ⟨s' :: filters, .cons hholds hfilters, ?_⟩
    rw [hend] at hread ⊢
    rw [hlen] at hrun
    rw [subscribeFilters_step signed buf _ ptr _ _ x s' qos _ hget hread (by omega) hchar hwrite]
    simp only [set_append_cons]
    rw [hrun]
    simp only [List.length_cons, List.map_cons, List.drop_succ_cons, List.append_assoc,
      List.cons_append, List.nil_append, Nat.add_assoc, Nat.add_comm 1]

/-- The loop over the topic filters of an UNSUBSCRIBE, for an array with room for them. -/
theorem unsubscribeFilters_eq (buf rest : List UInt8) (topics : List (List UInt8))
    (htopics : ∀ t ∈ topics, t.length < 65536) (ptr : ℕ) (dup : UInt8) (packetid : UInt16)
    (strings spare : List MqttString) (hspare : topics.length ≤ spare.length)
    (hdrop : buf.drop ptr = topics.flatMap prefixed ++ rest) :
    ∃ filters, List.Forall₂ MqttString.Holds filters topics ∧
      unsubscribeFilters buf (ptr+(topics.flatMap prefixed).length) ptr
        ⟨dup, packetid, strings.length, strings ++ spare⟩ =
        some (true, ⟨dup, packetid, strings.length+topics.length,
          strings ++ filters ++ spare.drop topics.length⟩) := by
  induction topics generalizing ptr strings spare with
  | nil =>
    refine ⟨[], .nil, ?_⟩
    rw [unsubscribeFilters, if_neg (by simp)]
    simp
  | cons bs topics ih =>
    obtain ⟨x,spare,rfl⟩ := List.exists_cons_of_length_pos (show 0 < spare.length from
      (Nat.succ_pos _).trans_le hspare)
    rw [List.flatMap_cons] at hdrop ⊢
    obtain ⟨s',hread,hholds,hnext⟩ := readMqttLenString_prefixed x buf ptr bs
      (topics.flatMap prefixed) rest (htopics _ List.mem_cons_self) (by rw [hdrop, List.append_assoc])
    have hget : (strings ++ x :: spare)[strings.length]? = some x := by
      rw [List.getElem?_append_right le_rfl, Nat.sub_self]
      rfl
    have hend : ptr+(prefixed bs ++ topics.flatMap prefixed).length =
        ptr+2+bs.length+(topics.flatMap prefixed).length := by
      rw [List.length_append, prefixed_length]
      omega
    have hlen : (strings ++ [s']).length = strings.length+1 := by
      rw [List.length_append, List.length_singleton]
    obtain ⟨filters,hfilters,hrun⟩ := ih (fun t ht => htopics t (List.mem_cons_of_mem _ ht))
      (ptr+2+bs.length) (strings ++ [s']) spare (Nat.le_of_succ_le_succ hspare) hnext
    refine ⟨s' :: filters, .cons hholds hfilters, ?_⟩
    rw [hend] at hread ⊢
    rw [hlen] at hrun
    rw [unsubscribeFilters_step buf _ ptr _ _ x s' (by omega) hget hread]
    simp only [set_append_cons]
    rw [hrun]
    simp only [List.length_cons, List.drop_succ_cons, List.append_assoc, List.cons_append,
      List.nil_append, Nat.add_assoc, Nat.add_comm 1]

theorem charToInt_ofInt (signed : Bool) (q : ℤ) (h0 : 0 ≤ q) (h : q < 128) :
    charToInt signed (UInt8.ofInt q) = q := by
  obtain ⟨n,rfl⟩ := Int.eq_ofNat_of_zero_le h0
  have hn : (UInt8.ofNat n).toNat = n := toNat_ofNat n (by omega)
  rw [ofInt_natCast]
  unfold charToInt
  cases signed
  · rw [if_neg (by decide), hn]
  · rw [if_pos rfl]
    show (UInt8.ofNat n).toBitVec.toInt = n
    rw [BitVec.toInt_eq_toNat_cond, UInt8.toNat_toBitVec, hn, if_pos (by omega)]

/-- The arrays of a SUBSCRIBE, whatever follows it in memory. -/
theorem deserializeSubscribe_subscribeBody (signed : Bool) (dup : UInt8) (packetid : UInt16)
    (subs : List (List UInt8 × UInt8)) (rest : List UInt8) (hsubs : ∀ s ∈ subs, s.1.length < 65536)
    (hlen : (subscribeBody packetid subs).length < 2^28) (hdup : dup.toNat < 2)
    (out : SubscribeOut) (hstrings : subs.length ≤ out.topicFilters.length)
    (hcodes : subs.length ≤ out.requestedQoSs.length) :
    ∃ filters, List.Forall₂ MqttString.Holds filters (subs.map fun s => s.1) ∧
      deserializeSubscribe signed out
        (frame (headerOf .subscribe dup 1 0) (subscribeBody packetid subs) ++ rest) =
        some (1, ⟨dup, packetid, subs.length, filters ++ out.topicFilters.drop subs.length,
          (subs.map fun s => charToInt signed s.2) ++ out.requestedQoSs.drop subs.length⟩) := by
  obtain ⟨hchar,hdecode,hdrop⟩ := frame_reads (headerOf .subscribe dup 1 0)
    (subscribeBody packetid subs) rest hlen
  obtain ⟨hint,hafter⟩ := readInt_of_drop _ _ _ _
    ((subs.flatMap fun s => prefixed s.1 ++ [s.2]) ++ rest) hdrop
  obtain ⟨filters,hfilters,hrun⟩ := subscribeFilters_eq signed _ rest subs hsubs _ dup packetid []
    out.topicFilters [] out.requestedQoSs rfl hstrings hcodes hafter
  have hend (n : ℕ) : 1+n+(subscribeBody packetid subs).length =
      1+n+2+(subs.flatMap fun s => prefixed s.1 ++ [s.2]).length := by
    unfold subscribeBody
    rw [List.length_append, be16_length]
    omega
  refine ⟨filters, hfilters, ?_⟩
  unfold deserializeSubscribe
  simp only [hchar, Option.bind_eq_bind, Option.bind_some, MqttHeader.ofByte_byte, hdecode,
    headerOf_type, ne_eq, not_true_eq_false, if_false, hint, hend, headerOf_dup _ dup _ _ hdup,
    ofNat_be16]
  simp only [List.length_nil, List.nil_append, Nat.zero_add] at hrun
  rw [hrun]
  rfl

/-- A SUBSCRIBE to any number of topics whose lengths two bytes can hold: either the
buffer is shorter than the room asked for and untouched, or everything is read back
from it into arrays with room for the topics. -/
theorem subscribe_read_back (signed : Bool) (buf : List UInt8) (buflen : ℤ) (dup : UInt8)
    (packetid : UInt16) (subs : List (Topic × ℤ))
    (hsubs : ∀ s ∈ subs, s.1.bytes.length < 65536 ∧ 0 ≤ s.2 ∧ s.2 < 128)
    (hlen : (subscribeBody packetid
      (subs.map fun s => (s.1.bytes,UInt8.ofInt s.2))).length < 2^28)
    (hbuf : buflen ≤ buf.length) (hdup : dup.toNat < 2) :
    buflen < roomFor (subscribeBody packetid
        (subs.map fun s => (s.1.bytes,UInt8.ofInt s.2))).length ∧
      serializeSubscribe buf buflen dup packetid subs.length (subs.map fun s => s.1.string)
        (subs.map fun s => s.2) = some (bufferTooShort, buf) ∨
    roomFor (subscribeBody packetid
        (subs.map fun s => (s.1.bytes,UInt8.ofInt s.2))).length ≤ buflen ∧
    ∃ packet, (packet.length:ℤ) ≤ buflen ∧
      serializeSubscribe buf buflen dup packetid subs.length (subs.map fun s => s.1.string)
        (subs.map fun s => s.2) = some ((packet.length:ℤ), packet ++ buf.drop packet.length) ∧
      ∀ out, subs.length ≤ out.topicFilters.length → subs.length ≤ out.requestedQoSs.length →
        ∃ got, deserializeSubscribe signed out (packet ++ buf.drop packet.length) = some (1,got) ∧
          got.dup = dup ∧ got.packetid = packetid ∧ got.count = subs.length ∧
          List.Forall₂ MqttString.Holds (got.topicFilters.take subs.length)
            (subs.map fun s => s.1.bytes) ∧
          got.requestedQoSs.take subs.length = subs.map fun s => s.2 := by
  rw [serializeSubscribe_eq buf buflen dup packetid subs (by omega)]
  apply (measured_cases buf buflen _ _ hlen hbuf).imp id
  rintro ⟨hroom,hle,hrun⟩
  refine ⟨hroom, _, hle, hrun, ?_⟩
  intro out hstrings hcodes
  let pairs := subs.map fun s => (s.1.bytes,UInt8.ofInt s.2)
  have hpairs : ∀ p ∈ pairs, p.1.length < 65536 := by
    intro p hp
    obtain ⟨s,hs,rfl⟩ := List.mem_map.mp hp
    exact (hsubs s hs).1
  have hpairsLen : pairs.length = subs.length := List.length_map _
  have hback : (pairs.map fun p => charToInt signed p.2) = subs.map fun s => s.2 := by
    rw [List.map_map]
    apply List.map_congr_left
    intro s hs
    exact charToInt_ofInt signed s.2 (hsubs s hs).2.1 (hsubs s hs).2.2
  obtain ⟨filters,hfilters,hdeserialize⟩ := deserializeSubscribe_subscribeBody signed dup
    packetid pairs (buf.drop (frame (headerOf .subscribe dup 1 0)
      (subscribeBody packetid pairs)).length) hpairs hlen hdup out (by omega) (by omega)
  have hfiltersLen : filters.length = subs.length := by
    rw [hfilters.length_eq, List.length_map, hpairsLen]
  refine ⟨_, hdeserialize, rfl, rfl, hpairsLen, ?_, ?_⟩
  · rw [List.map_map] at hfilters
    rw [← hfiltersLen, List.take_left' rfl]
    exact hfilters
  · rw [hback, List.take_left' (List.length_map _)]

/-- Two topics in a buffer that has just the room. -/
theorem subscribe_read_back_two : ∃ packet, (packet.length:ℤ) ≤ 13 ∧ ∀ out, 2 ≤ out.topicFilters.length →
      2 ≤ out.requestedQoSs.length → ∃ got, deserializeSubscribe true out
        (packet ++ (List.replicate 13 0).drop packet.length) = some (1,got) ∧
        got.requestedQoSs.take 2 = [1,2] := by
  let subs : List (Topic × ℤ) := [(⟨.ofC ⟨[97], by decide⟩, [97], MqttString.holds_ofC _⟩, 1),
    (⟨.ofC ⟨[98,99], by decide⟩, [98,99], MqttString.holds_ofC _⟩, 2)]
  have hsubs : ∀ s ∈ subs, s.1.bytes.length < 65536 ∧ 0 ≤ s.2 ∧ s.2 < 128 := by
    intro s hs
    simp only [subs, List.mem_cons, List.not_mem_nil, or_false] at hs
    rcases hs with rfl | rfl <;> decide
  have hback := subscribe_read_back true (List.replicate 13 0) 13 0 7 subs hsubs (by decide)
    (by decide) (by decide)
  rcases hback with ⟨hshort,-⟩ | ⟨-,packet,hle,-,hread⟩
  · exact absurd hshort (by decide)
  · refine ⟨packet, hle, ?_⟩
    intro out hstrings hcodes
    obtain ⟨got,hgot,-,-,-,-,hqos⟩ := hread out hstrings hcodes
    exact ⟨got, hgot, hqos⟩

/-- An UNSUBSCRIBE from any number of topics, likewise. -/
theorem unsubscribe_read_back (buf : List UInt8) (buflen : ℤ) (dup : UInt8) (packetid : UInt16)
    (topics : List Topic) (htopics : ∀ t ∈ topics, t.bytes.length < 65536)
    (hlen : (unsubscribeBody packetid (topics.map Topic.bytes)).length < 2^28)
    (hbuf : buflen ≤ buf.length) (hdup : dup.toNat < 2) :
    buflen < roomFor (unsubscribeBody packetid (topics.map Topic.bytes)).length ∧
      serializeUnsubscribe buf buflen dup packetid topics.length (topics.map Topic.string) =
        some (bufferTooShort, buf) ∨
    roomFor (unsubscribeBody packetid (topics.map Topic.bytes)).length ≤ buflen ∧
    ∃ packet, (packet.length:ℤ) ≤ buflen ∧
      serializeUnsubscribe buf buflen dup packetid topics.length (topics.map Topic.string) =
        some ((packet.length:ℤ), packet ++ buf.drop packet.length) ∧
      ∀ out, topics.length ≤ out.topicFilters.length →
        ∃ got, deserializeUnsubscribe out (packet ++ buf.drop packet.length) = some (1,got) ∧
          got.dup = dup ∧ got.packetid = packetid ∧ got.count = topics.length ∧
          List.Forall₂ MqttString.Holds (got.topicFilters.take topics.length)
            (topics.map Topic.bytes) := by
  rw [serializeUnsubscribe_eq buf buflen dup packetid topics (by omega)]
  apply (measured_cases buf buflen _ _ hlen hbuf).imp id
  rintro ⟨hroom,hle,hrun⟩
  refine ⟨hroom, _, hle, hrun, ?_⟩
  intro out hstrings
  have hbytes : ∀ t ∈ topics.map Topic.bytes, t.length < 65536 := by
    intro t ht
    obtain ⟨topic,htopic,rfl⟩ := List.mem_map.mp ht
    exact htopics topic htopic
  obtain ⟨hchar,hdecode,hdrop⟩ := frame_reads (headerOf .unsubscribe dup 1 0)
    (unsubscribeBody packetid (topics.map Topic.bytes)) (buf.drop (frame (headerOf .unsubscribe dup
      1 0) (unsubscribeBody packetid (topics.map Topic.bytes))).length) hlen
  obtain ⟨hint,hafter⟩ := readInt_of_drop _ _ _ _
    ((topics.map Topic.bytes).flatMap prefixed ++ _) hdrop
  obtain ⟨filters,hfilters,hloop⟩ := unsubscribeFilters_eq _ _ (topics.map Topic.bytes) hbytes _ dup
    packetid [] out.topicFilters (by rw [List.length_map]; exact hstrings) hafter
  have hend (n : ℕ) : 1+n+(unsubscribeBody packetid (topics.map Topic.bytes)).length =
      1+n+2+((topics.map Topic.bytes).flatMap prefixed).length := by
    unfold unsubscribeBody
    rw [List.length_append, be16_length]
    omega
  have hfiltersLen : filters.length = topics.length := by
    rw [hfilters.length_eq, List.length_map]
  refine ⟨⟨dup, packetid, topics.length, filters ++ out.topicFilters.drop topics.length⟩, ?_, rfl,
    rfl, rfl, ?_⟩
  · unfold deserializeUnsubscribe
    simp only [hchar, Option.bind_eq_bind, Option.bind_some, MqttHeader.ofByte_byte, hdecode,
      headerOf_type, ne_eq, not_true_eq_false, if_false, hint, hend, headerOf_dup _ dup _ _ hdup,
      ofNat_be16]
    simp only [List.length_nil, List.nil_append, Nat.zero_add, List.length_map] at hloop
    rw [hloop]
    rfl
  · show List.Forall₂ _ (List.take topics.length (filters ++ _)) _
    rw [← hfiltersLen, List.take_left' rfl]
    exact hfilters

/-- Two topics in a buffer that has the room: the server reads both filters back. -/
theorem unsubscribe_read_back_two : ∃ packet, (packet.length:ℤ) ≤ 11 ∧
    ∀ out, 2 ≤ out.topicFilters.length → ∃ got,
      deserializeUnsubscribe out (packet ++ (List.replicate 11 0).drop packet.length) =
        some (1,got) ∧ got.packetid = 7 ∧ got.count = 2 ∧
      List.Forall₂ MqttString.Holds (got.topicFilters.take 2) [[97],[98,99]] := by
  have hback := unsubscribe_read_back (List.replicate 11 0) 11 0 7
    [⟨.ofC ⟨[97], by decide⟩, [97], MqttString.holds_ofC _⟩,
      ⟨.ofC ⟨[98,99], by decide⟩, [98,99], MqttString.holds_ofC _⟩] (by simp) (by decide) (by decide)
    (by decide)
  rcases hback with ⟨hshort,-⟩ | ⟨-,packet,hle,-,hread⟩
  · exact absurd hshort (by decide)
  · refine ⟨packet, hle, ?_⟩
    intro out hout
    obtain ⟨got,hgot,-,hid,hcount,hfilters⟩ := hread out hout
    exact ⟨got, hgot, hid, hcount, hfilters⟩

end CppOperate.Mqtt
