import CppOperate.MqttNetwork
import Mathlib

/-! `mqtt_read_packet` as a whole: when it leaves the read buffer, which bytes of the
connection a call takes, and that the client stays in step with the packets. -/
namespace CppOperate.Mqtt
open ByteMemory CLoops WireFormats

theorem store_eq_ok_iff (buf : List UInt8) (i : ℕ) (bs buf' : List UInt8) :
    store buf i bs = .ok buf' ↔ writeAt buf i bs = some buf' := by
  unfold store
  cases writeAt buf i bs <;> simp

/-- How a call that returns has gone, from the header on. -/
inductive PacketRead.Comes (readBuf : List UInt8) (s : Socket) : PacketRead → Prop
  | noHeader (r : Received) (buf : List UInt8) (hr : networkRead s 1 = .ok r)
      (hbuf : writeAt readBuf 0 r.got = some buf) (hrc : r.rc ≠ 1) :
      Comes readBuf s ⟨mqttNothingToReadError, 0, buf, r.socket⟩
  | tooLong (r : Received) (buf buf' : List UInt8) (n : ℕ) (t u : Socket) (ptr : Cursor)
      (hr : networkRead s 1 = .ok r) (hbuf : writeAt readBuf 0 r.got = some buf) (hrc : r.rc = 1)
      (hlen : decodePacket 4 0 1 r.socket = .ok (n,t)) (hptr : packetEncode ⟨buf,1⟩ n = some ptr)
      (hlong : buf.length < ptr.pos+n) (hdrain : packetDrain n ptr.mem t = .ok (buf',u)) :
      Comes readBuf s ⟨mqttBufferTooShortError, 0, buf', u⟩
  | empty (r : Received) (buf : List UInt8) (t : Socket) (ptr : Cursor)
      (hr : networkRead s 1 = .ok r) (hbuf : writeAt readBuf 0 r.got = some buf) (hrc : r.rc = 1)
      (hlen : decodePacket 4 0 1 r.socket = .ok (0,t)) (hptr : packetEncode ⟨buf,1⟩ 0 = some ptr)
      (hroom : ptr.pos ≤ buf.length) : Comes readBuf s (PacketRead.whole ptr.mem t)
  | noRest (r rest : Received) (buf buf' : List UInt8) (n : ℕ) (t : Socket) (ptr : Cursor)
      (hr : networkRead s 1 = .ok r) (hbuf : writeAt readBuf 0 r.got = some buf) (hrc : r.rc = 1)
      (hlen : decodePacket 4 0 1 r.socket = .ok (n,t)) (hptr : packetEncode ⟨buf,1⟩ n = some ptr)
      (hroom : ptr.pos+n ≤ buf.length) (hpos : 0 < n) (hrest : networkRead t n = .ok rest)
      (hbuf' : writeAt ptr.mem ptr.pos rest.got = some buf') (hrc' : rest.rc ≠ n) :
      Comes readBuf s ⟨mqttNothingToReadError, 0, buf', rest.socket⟩
  | full (r rest : Received) (buf buf' : List UInt8) (n : ℕ) (t : Socket) (ptr : Cursor)
      (hr : networkRead s 1 = .ok r) (hbuf : writeAt readBuf 0 r.got = some buf) (hrc : r.rc = 1)
      (hlen : decodePacket 4 0 1 r.socket = .ok (n,t)) (hptr : packetEncode ⟨buf,1⟩ n = some ptr)
      (hroom : ptr.pos+n ≤ buf.length) (hpos : 0 < n) (hrest : networkRead t n = .ok rest)
      (hbuf' : writeAt ptr.mem ptr.pos rest.got = some buf') (hrc' : rest.rc = n) :
      Comes readBuf s (PacketRead.whole buf' rest.socket)

theorem readPacket_ok (readBuf : List UInt8) (s : Socket) (out : PacketRead)
    (h : readPacket readBuf s = .ok out) : PacketRead.Comes readBuf s out := by
  unfold readPacket at h
  obtain ⟨r,hr,h⟩ := (bind_eq_ok_iff _ _ _).mp h
  obtain ⟨buf,hbuf,h⟩ := (bind_eq_ok_iff _ _ _).mp h
  rw [store_eq_ok_iff] at hbuf
  by_cases hrc : r.rc ≠ 1
  · rw [if_pos hrc] at h
    obtain rfl := Except.ok.inj h
    exact .noHeader r buf hr hbuf hrc
  · rw [if_neg hrc] at h
    rw [not_not] at hrc
    obtain ⟨⟨n,t⟩,hlen,h⟩ := (bind_eq_ok_iff _ _ _).mp h
    cases hptr : packetEncode ⟨buf,1⟩ n with
    | none =>
      simp only [hptr] at h
      contradiction
    | some ptr =>
      simp only [hptr] at h
      by_cases hlong : buf.length < ptr.pos+n
      · rw [if_pos hlong] at h
        obtain ⟨⟨buf',u⟩,hdrain,h⟩ := (bind_eq_ok_iff _ _ _).mp h
        obtain rfl := Except.ok.inj h
        exact .tooLong r buf buf' n t u ptr hr hbuf hrc hlen hptr hlong hdrain
      · rw [if_neg hlong] at h
        by_cases hpos : 0 < n
        · rw [if_pos hpos] at h
          obtain ⟨rest,hrest,h⟩ := (bind_eq_ok_iff _ _ _).mp h
          obtain ⟨buf',hbuf',h⟩ := (bind_eq_ok_iff _ _ _).mp h
          rw [store_eq_ok_iff] at hbuf'
          by_cases hrc' : rest.rc ≠ n
          · rw [if_pos hrc'] at h
            obtain rfl := Except.ok.inj h
            exact .noRest r rest buf buf' n t ptr hr hbuf hrc hlen hptr (by omega) hpos hrest hbuf' hrc'
          · rw [if_neg hrc'] at h
            obtain rfl := Except.ok.inj h
            exact .full r rest buf buf' n t ptr hr hbuf hrc hlen hptr (by omega) hpos hrest hbuf'
              (not_not.mp hrc')
        · rw [if_neg hpos] at h
          obtain rfl := Nat.eq_zero_of_not_pos hpos
          obtain rfl := Except.ok.inj h
          exact .empty r buf t ptr hr hbuf hrc hlen hptr (by omega)

/-- Four digits always fit behind the header in five bytes. -/
theorem packetEncode_room (buf : List UInt8) (n : ℕ) (hn : n < 2^28) (hbuf : 5 ≤ buf.length) :
    ∃ ptr, packetEncode ⟨buf,1⟩ n = some ptr ∧ ptr.mem.length = buf.length ∧
      ptr.pos ≤ buf.length := by
  obtain ⟨b,spare,rfl⟩ := List.exists_cons_of_length_pos (show 0 < buf.length by omega)
  have hdigits := (base128_length_le_iff 3 n).mpr (by omega)
  rw [List.length_cons] at hbuf
  have hencode := packetEncode_behind b spare n
  rw [if_pos (by omega)] at hencode
  refine ⟨_, hencode, ?_⟩
  rw [packetEncode_natCast] at hencode
  refine ⟨(Cursor.put_mem_length _ _ _ hencode).1, ?_⟩
  rw [List.length_cons]
  dsimp only
  omega

/-- With five bytes or more a call stays in the read buffer, whatever comes. -/
theorem readPacket_error (readBuf : List UInt8) (s : Socket) (e : Stop) (hbuf : 5 ≤ readBuf.length)
    (h : readPacket readBuf s = .error e) : e ≠ .outside := by
  have hwaits {e : Stop} (hwait : e = .waiting) : e ≠ .outside := by
    rw [hwait]
    decide
  unfold readPacket at h
  obtain herror | ⟨r,hr,h⟩ := (bind_eq_error_iff _ _ _).mp h
  · exact hwaits (networkRead_error s 1 e herror)
  obtain ⟨buf,hwrite,hlen⟩ := networkRead_stored 1 readBuf s r hr (by omega)
  rw [(store_eq_ok_iff _ _ _ _).mpr hwrite, ok_bind] at h
  by_cases hrc : r.rc ≠ 1
  · rw [if_pos hrc] at h
    contradiction
  rw [if_neg hrc] at h
  obtain herror | ⟨⟨n,t⟩,hdecode,h⟩ := (bind_eq_error_iff _ _ _).mp h
  · exact hwaits (decodePacket_error 4 0 1 _ e herror)
  have hn := decodePacket_lt 4 0 1 (2^28) _ _ n (by norm_num) hdecode
  obtain ⟨ptr,hptr,hmem,hptrPos⟩ := packetEncode_room buf n hn (by omega)
  simp only [hptr] at h
  by_cases hlong : buf.length < ptr.pos+n
  · rw [if_pos hlong] at h
    obtain herror | ⟨_,-,h⟩ := (bind_eq_error_iff _ _ _).mp h
    · exact packetDrain_error n (by omega) ptr.mem t e (by omega) (by omega) herror
    · contradiction
  rw [if_neg hlong] at h
  by_cases hpos : 0 < n
  · rw [if_pos hpos] at h
    obtain herror | ⟨rest,hrest,h⟩ := (bind_eq_error_iff _ _ _).mp h
    · exact hwaits (networkRead_error t n e herror)
    obtain ⟨used,-,hends⟩ := networkRead_ok t n rest hrest
    have hle := hends.length_le
    obtain ⟨buf',hwrite'⟩ := Option.isSome_iff_exists.mp
      ((writeAt_isSome_iff ptr.mem ptr.pos rest.got).mpr (by omega))
    rw [(store_eq_ok_iff _ _ _ _).mpr hwrite', ok_bind] at h
    split_ifs at h
    · contradiction
    · contradiction
  · rw [if_neg hpos] at h
    contradiction

/-- A call can leave the read buffer exactly if it has fewer than five bytes: the length
of a packet is stored before it is compared with the buffer's. -/
theorem readPacket_stays_inside_iff (readBuf : List UInt8) :
    (∀ s, readPacket readBuf s ≠ .error .outside) ↔ 5 ≤ readBuf.length := by
  constructor
  · intro h
    by_contra hshort
    apply h ⟨[16,255,255,255,127], List.replicate 5 (.bytes 0)⟩
    have hheader : networkRead ⟨[16,255,255,255,127], List.replicate 5 (.bytes 0)⟩ 1 =
        .ok ⟨1, [16], ⟨[255,255,255,127], List.replicate 4 (.bytes 0)⟩⟩ := rfl
    unfold readPacket
    rw [hheader, ok_bind]
    match readBuf, hshort with
    | [], _ => rfl
    | b :: spare, hshort =>
      have hstore : store (b :: spare) 0 [16] = .ok ([16] ++ spare) := by
        rw [store_eq_ok_iff]
        exact writeAt_behind [] (b :: spare) [16] (Nat.succ_le_succ (Nat.zero_le _))
      have hdigits : decodePacket 4 0 1 ⟨[255,255,255,127], List.replicate 4 (.bytes 0)⟩ =
          .ok (268435455, ⟨[],[]⟩) := rfl
      have hfour : ¬ (base128 268435455).length ≤ spare.length := by
        have hlong := (base128_length_le_iff 2 268435455).not.mpr (by norm_num)
        rw [List.length_cons] at hshort
        omega
      rw [hstore, ok_bind, if_neg (by decide), hdigits, ok_bind]
      simp only [packetEncode_behind 16 spare 268435455, if_neg hfour]
      rfl
  · intro hbuf s h
    exact readPacket_error readBuf s .outside hbuf h rfl

def mqttMinPayloadSize : ℕ := 2
def mqttMaxPayloadSize : ℕ := 268435455
def mqttDefaultBufSize : ℕ := 1024

/-- The size of the buffer that `mqtt_read_buf_malloc` allocates. -/
def readBufMalloc (size : ℕ) : ℕ :=
  if size ≤ mqttMinPayloadSize ∨ mqttMaxPayloadSize ≤ size then mqttDefaultBufSize else size

/-- The sizes that are accepted and too small. -/
theorem set_read_buf_size_safe_iff (size : ℕ) :
    (∀ readBuf : List UInt8, readBuf.length = readBufMalloc size →
      ∀ s, readPacket readBuf s ≠ .error .outside) ↔ size ≠ 3 ∧ size ≠ 4 := by
  have hfive : 5 ≤ readBufMalloc size ↔ size ≠ 3 ∧ size ≠ 4 := by
    unfold readBufMalloc mqttMinPayloadSize mqttMaxPayloadSize mqttDefaultBufSize
    split_ifs <;> omega
  rw [← hfive]
  constructor
  · intro h
    have hlen : (List.replicate (readBufMalloc size) (0:UInt8)).length = readBufMalloc size :=
      List.length_replicate
    rw [← hlen]
    exact (readPacket_stays_inside_iff _).mp (h _ hlen)
  · intro h readBuf hlen
    exact (readPacket_stays_inside_iff readBuf).mpr (hlen ▸ h)

/-- What a call should make of the packet `p` with a read buffer of `size` bytes. -/
def WirePacket.ReadAs (p : WirePacket) (size : ℕ) (out : PacketRead) : Prop :=
  if p.kept.length ≤ size then out.rc = mqttSuccessError ∧
    out.packetType = p.header.type.toNat ∧ p.kept <+: out.readBuf
  else out.rc = mqttBufferTooShortError ∧ out.packetType = 0

theorem WirePacket.readAs_whole (p : WirePacket) (spare : List UInt8) (size : ℕ) (t : Socket)
    (hfits : p.kept.length ≤ size) : p.ReadAs size (PacketRead.whole (p.kept ++ spare) t) := by
  rw [WirePacket.ReadAs, if_pos hfits]
  refine ⟨rfl, ?_, List.prefix_append _ _⟩
  show (MqttHeader.ofByte p.header.byte).type.toNat = _
  rw [MqttHeader.ofByte_byte]

/-- The header and the length of a packet: how far a call gets in them, and what is in the
buffer then. -/
theorem header_took (p : WirePacket) (more readBuf buf : List UInt8) (s t : Socket) (r : Received)
    (n : ℕ) (ptr : Cursor) (hincoming : s.incoming = p.wire ++ more) (hr : networkRead s 1 = .ok r)
    (hbuf : writeAt readBuf 0 r.got = some buf) (hrc : r.rc = 1)
    (hlen : decodePacket 4 0 1 r.socket = .ok (n,t)) (hptr : packetEncode ⟨buf,1⟩ n = some ptr) :
    buf.length = readBuf.length ∧ ptr.mem.length = readBuf.length ∧
      ptr.pos = (p.header.byte :: base128 n).length ∧ ptr.pos ≤ buf.length ∧
      (∃ spare, ptr.mem = (p.header.byte :: base128 n) ++ spare) ∧
      ∃ digits used, s.Took t (p.header.byte :: digits) used ∧
        (((∀ o ∈ used, o.Good) ∧ digits = p.digits ∧ n = p.body.length) ∨
          ((¬ ∀ o ∈ used, o.Good) ∧ digits.length < p.digits.length ∧ n ≤ p.body.length)) := by
  obtain ⟨used,htook,hends⟩ := networkRead_ok s 1 r hr
  obtain ⟨hiff,hgot⟩ := hends.rc_eq_iff
  have hgood : ∀ o ∈ used, o.Good := hiff.mp (by rw [hrc]; rfl)
  obtain ⟨c,hc⟩ := List.length_eq_one_iff.mp (hgot.mpr hgood)
  have hhead := htook.incoming
  rw [hincoming, hc, WirePacket.wire, List.cons_append] at hhead
  obtain ⟨rfl,hmore⟩ := List.cons.inj hhead
  change _ = r.socket.incoming at hmore
  rw [List.append_assoc] at hmore
  have hbufLen := writeAt_length _ _ _ _ hbuf
  rw [hc, writeAt_eq_some_iff] at hbuf
  obtain ⟨taken,used',htook',hcases⟩ := decodePacket_ok 4 0 1 r.socket t n p.body.length p.digits
    (p.body ++ more) p.counted hmore.symm hlen
  rw [Nat.mul_one, Nat.zero_add] at hcases
  have hptr' := hptr
  rw [packetEncode_natCast] at hptr'
  have hmemLen := (Cursor.put_mem_length _ _ _ hptr').1
  have hfront : buf = [p.header.byte] ++ readBuf.drop 1 := hbuf.2
  rw [hfront, packetEncode_behind] at hptr
  split_ifs at hptr with hroom
  obtain rfl := Option.some.inj hptr
  have htook'' := htook.trans htook'
  rw [hc] at htook''
  refine ⟨hbufLen, hmemLen.trans hbufLen, Nat.add_comm _ _, ?_, ⟨_,rfl⟩, taken, used ++ used',
    htook'', ?_⟩
  · rw [hfront, List.length_append, List.length_singleton]
    exact Nat.add_le_add_left hroom 1
  · rw [List.forall_mem_append, and_iff_right hgood]
    exact hcases

/-- The bytes a call takes from the connection when the packet `p` is next: exactly those of
the packet when no `recv` fails, and fewer when one does and the packet fits. -/
theorem readPacket_took (p : WirePacket) (more readBuf : List UInt8) (s : Socket) (out : PacketRead)
    (hincoming : s.incoming = p.wire ++ more) (h : readPacket readBuf s = .ok out) :
    out.readBuf.length = readBuf.length ∧ ∃ taken used, s.Took out.socket taken used ∧
      ((∀ o ∈ used, o.Good) → taken = p.wire ∧ p.ReadAs readBuf.length out) ∧
      (p.kept.length ≤ readBuf.length → (¬ ∀ o ∈ used, o.Good) →
        taken.length < p.wire.length) := by
  have hkept := p.kept_length
  have hwire : p.wire.length = 1+p.digits.length+p.body.length := by
    rw [WirePacket.wire, List.length_cons, List.length_append]
    omega
  have hwhole (u : Socket) (taken : List UInt8) (used : List Recv) (htook : s.Took u taken used)
      (hlen : taken.length = p.wire.length) : p.wire = taken :=
    (List.append_inj (hincoming.symm.trans htook.incoming) hlen.symm).1
  cases readPacket_ok readBuf s out h with
  | noHeader r buf hr hbuf hrc =>
    obtain ⟨used,htook,hends⟩ := networkRead_ok s 1 r hr
    obtain ⟨hiff,hgot⟩ := hends.rc_eq_iff
    have hbad : ¬ ∀ o ∈ used, o.Good := fun hgood => hrc (hiff.mpr hgood)
    have hlt := lt_of_le_of_ne hends.length_le (mt hgot.mp hbad)
    refine ⟨writeAt_length _ _ _ _ hbuf, r.got, used, htook, fun hgood => absurd hgood hbad, ?_⟩
    intro _ _
    omega
  | tooLong r buf buf' n t u ptr hr hbuf hrc hlen hptr hlong hdrain =>
    obtain ⟨hbufLen,hmemLen,hpos,hposLe,-,digits,used,htook,hcases⟩ :=
      header_took p more readBuf buf s t r n ptr hincoming hr hbuf hrc hlen hptr
    have hn := decodePacket_lt 4 0 1 (2^28) _ _ n (by norm_num) hlen
    rw [List.length_cons] at hpos
    obtain ⟨hbuf'Len,taken,used',htook',hcount⟩ :=
      packetDrain_ok n (by omega) ptr.mem buf' t u (by omega) (by omega) hdrain
    refine ⟨hbuf'Len.trans hmemLen, _, _, htook.trans htook', ?_, ?_⟩
    · rw [List.forall_mem_append]
      rintro ⟨hgood,hgood'⟩
      obtain ⟨-,rfl,rfl⟩ | ⟨hbad,-,-⟩ := hcases
      · have hbody : taken.length = p.body.length := by
          have hnone {o : Recv} (ho : ¬ o.Good) : o ∉ used' := fun hmem => ho (hgood' o hmem)
          have hexact := (hcount (hnone Recv.closed_bad)).2 (hnone Recv.failed_bad)
          omega
        refine ⟨(hwhole _ _ _ (htook.trans htook') ?_).symm, ?_⟩
        · rw [List.length_append, List.length_cons]
          omega
        rw [WirePacket.ReadAs, if_neg (by omega)]
        exact ⟨rfl,rfl⟩
      · exact absurd hgood hbad
    · intro hfits _
      have hn : n ≤ p.body.length := by
        obtain ⟨-,-,rfl⟩ | ⟨-,-,hn⟩ := hcases
        · exact le_rfl
        · exact hn
      have hmono := base128_length_mono n p.body.length hn
      omega
  | empty r buf t ptr hr hbuf hrc hlen hptr hroom =>
    obtain ⟨hbufLen,hmemLen,hpos,hposLe,⟨spare,hmem⟩,digits,used,htook,hcases⟩ :=
      header_took p more readBuf buf s t r 0 ptr hincoming hr hbuf hrc hlen hptr
    refine ⟨hmemLen, _, used, htook, ?_, ?_⟩
    · intro hgood
      obtain ⟨-,rfl,hn⟩ | ⟨hbad,-,-⟩ := hcases
      · have hbody : p.body = [] := List.eq_nil_of_length_eq_zero hn.symm
        have hkeptMem : ptr.mem = p.kept ++ spare := by
          rw [hmem, WirePacket.kept, frame, hbody, List.append_nil]
          rfl
        refine ⟨by rw [WirePacket.wire, hbody, List.append_nil], ?_⟩
        rw [hkeptMem]
        apply p.readAs_whole
        rw [List.length_cons, hn] at hpos
        omega
      · exact absurd hgood hbad
    · intro _ hbad
      obtain ⟨hgood,-,-⟩ | ⟨-,hlt,-⟩ := hcases
      · exact absurd hgood hbad
      · rw [List.length_cons]
        omega
  | noRest r rest buf buf' n t ptr hr hbuf hrc hlen hptr hroom hpos hrest hbuf' hrc' =>
    obtain ⟨hbufLen,hmemLen,-,-,-,digits,used,htook,hcases⟩ :=
      header_took p more readBuf buf s t r n ptr hincoming hr hbuf hrc hlen hptr
    obtain ⟨used',htook',hends⟩ := networkRead_ok t n rest hrest
    obtain ⟨hiff,hgot⟩ := hends.rc_eq_iff
    have hbad' : ¬ ∀ o ∈ used', o.Good := fun hgood => hrc' (hiff.mpr hgood)
    have hlt := lt_of_le_of_ne hends.length_le (mt hgot.mp hbad')
    refine ⟨(writeAt_length _ _ _ _ hbuf').trans hmemLen, _, _, htook.trans htook', ?_, ?_⟩
    · rw [List.forall_mem_append]
      rintro ⟨-,hgood'⟩
      exact absurd hgood' hbad'
    · intro _ _
      rw [List.length_append, List.length_cons]
      obtain ⟨-,rfl,rfl⟩ | ⟨-,hdigits,hn⟩ := hcases <;> omega
  | full r rest buf buf' n t ptr hr hbuf hrc hlen hptr hroom hpos hrest hbuf' hrc' =>
    obtain ⟨hbufLen,hmemLen,hposEq,-,⟨spare,hmem⟩,digits,used,htook,hcases⟩ :=
      header_took p more readBuf buf s t r n ptr hincoming hr hbuf hrc hlen hptr
    obtain ⟨used',htook',hends⟩ := networkRead_ok t n rest hrest
    obtain ⟨hiff,hgot⟩ := hends.rc_eq_iff
    have hgood' : ∀ o ∈ used', o.Good := hiff.mp hrc'
    have hrestLen := hgot.mpr hgood'
    refine ⟨(writeAt_length _ _ _ _ hbuf').trans hmemLen, _, _, htook.trans htook', ?_, ?_⟩
    · rw [List.forall_mem_append]
      rintro ⟨hgood,-⟩
      obtain ⟨-,rfl,rfl⟩ | ⟨hbad,-,-⟩ := hcases
      · have htaken := hwhole _ _ _ (htook.trans htook') (by
          rw [List.length_append, List.length_cons]
          omega)
        have hsplit : (p.header.byte :: p.digits) ++ p.body =
            (p.header.byte :: p.digits) ++ rest.got := htaken
        have hbody : p.body = rest.got := List.append_cancel_left hsplit
        refine ⟨htaken.symm, ?_⟩
        have hspare : rest.got.length ≤ spare.length := by
          rw [hmem, List.length_append, ← hposEq] at hmemLen
          omega
        rw [hmem, hposEq, writeAt_behind _ _ _ hspare] at hbuf'
        obtain rfl := Option.some.inj hbuf'
        have hkeptMem : (p.header.byte :: base128 p.body.length) ++ rest.got = p.kept := by
          rw [← hbody]
          rfl
        rw [hkeptMem]
        apply p.readAs_whole
        rw [List.length_cons] at hposEq
        omega
      · exact absurd hgood hbad
    · intro _ hbad
      obtain ⟨hgood,-,-⟩ | ⟨-,hdigits,hn⟩ := hcases
      · exact absurd (List.forall_mem_append.mpr ⟨hgood,hgood'⟩) hbad
      · rw [List.length_append, List.length_cons]
        omega

/-- The connection has `n` bytes to come, and as many calls of `recv` hand some out. -/
structure Socket.Supplies (s : Socket) (n : ℕ) : Prop where
  good : ∀ o ∈ s.recvs, o.Good
  calls : n ≤ s.recvs.length
  bytes : n ≤ s.incoming.length

/-- What is taken from the connection needs no more calls than bytes. -/
theorem Socket.Took.supplies {s t : Socket} {taken : List UInt8} {used : List Recv} {n : ℕ}
    (h : s.Took t taken used) (hs : s.Supplies n) :
    (∀ o ∈ used, o.Good) ∧ t.Supplies (n-taken.length) := by
  obtain ⟨hgood,hcalls,hbytes⟩ := hs
  rw [h.recvs, List.forall_mem_append] at hgood
  rw [h.recvs, List.length_append] at hcalls
  rw [h.incoming, List.length_append] at hbytes
  have hused := h.each hgood.1
  exact ⟨hgood.1, hgood.2, by omega, by omega⟩

theorem recvLoop_returns (len : ℕ) (recvs : List Recv) (nleft : ℕ) (ptr incoming : List UInt8)
    (hgood : ∀ o ∈ recvs, o.Good) (hcalls : nleft ≤ recvs.length) (hbytes : nleft ≤ incoming.length) :
    ∃ r, recvLoop len recvs nleft ptr incoming = .ok r := by
  induction recvs generalizing nleft ptr incoming with
  | nil =>
    obtain rfl := Nat.le_zero.mp hcalls
    exact ⟨_,rfl⟩
  | cons o recvs ih =>
    cases nleft with
    | zero => exact ⟨_,rfl⟩
    | succ nleft =>
      obtain ⟨⟨k,rfl⟩,hlater⟩ := List.forall_mem_cons.mp hgood
      rw [List.length_cons] at hcalls
      have hgot : 0 < (incoming.take (min k nleft+1)).length := by
        rw [List.length_take]
        omega
      rw [recvLoop, if_neg (List.ne_nil_of_length_pos hgot)]
      apply ih _ _ _ hlater
      · omega
      · rw [List.length_drop]
        omega

/-- A read of no more than the connection has returns all of it. -/
theorem networkRead_returns (s : Socket) (n len : ℕ) (hs : s.Supplies n) (hlen : len ≤ n) :
    ∃ r, networkRead s len = .ok r ∧ r.rc = len ∧ r.got.length = len ∧
      s.incoming = r.got ++ r.socket.incoming ∧ r.socket.Supplies (n-len) := by
  obtain ⟨r,hr⟩ := recvLoop_returns len s.recvs len [] s.incoming hs.good (hlen.trans hs.calls)
    (hlen.trans hs.bytes)
  obtain ⟨used,htook,hends⟩ := networkRead_ok s len r hr
  obtain ⟨hgood,hrest⟩ := htook.supplies hs
  obtain ⟨hrc,hgot⟩ := hends.rc_eq_iff
  rw [hgot.mpr hgood] at hrest
  exact ⟨r, hr, hrc.mpr hgood, hgot.mpr hgood, htook.incoming, hrest⟩

theorem decodePacket_returns (left value multiplier n m : ℕ) (s : Socket) (digits more : List UInt8)
    (hread : readBase128 left digits = some (m,[])) (hincoming : s.incoming = digits ++ more)
    (hs : s.Supplies n) (hn : digits.length ≤ n) :
    ∃ out, decodePacket left value multiplier s = .ok out := by
  induction left generalizing value multiplier s digits m n with
  | zero => exact ⟨_,rfl⟩
  | succ left ih =>
    cases digits with
    | nil => simp [readBase128] at hread
    | cons b digits =>
      rw [List.length_cons] at hn
      obtain ⟨r,hr,hrc,hgot,hsplit,hrest⟩ := networkRead_returns s n 1 hs (by omega)
      obtain ⟨c,hc⟩ := List.length_eq_one_iff.mp hgot
      rw [Nat.cast_one] at hrc
      rw [hincoming, hc] at hsplit
      obtain ⟨rfl,hmore⟩ := List.cons.inj hsplit
      rw [decodePacket_succ, hr, ok_bind, if_neg (not_not.mpr hrc), hc, List.headD_cons]
      rw [readBase128] at hread
      by_cases hb : b.toNat < 128
      · rw [if_neg (not_not.mpr ((and_128_eq_zero_iff b).mpr hb))]
        exact ⟨_,rfl⟩
      · rw [if_neg hb] at hread
        obtain ⟨⟨m',rest⟩,hm,hn'⟩ := Option.map_eq_some_iff.mp hread
        obtain ⟨rfl,rfl⟩ := Prod.mk.inj hn'
        rw [if_pos (mt (and_128_eq_zero_iff b).mp hb)]
        exact ih _ _ (n-1) m' r.socket digits hm hmore.symm hrest (by omega)

/-- A drain returns when as many bytes come as it has to throw away. -/
theorem drainLoop_returns (packetLen : ℕ) (hint : packetLen < 2^31) (n : ℕ) (total : ℤ) (bytes2read : ℕ)
    (buf : List UInt8) (s : Socket) (hpos : 0 < bytes2read) (hroom : bytes2read ≤ buf.length)
    (htotal : 0 ≤ total) (hle : total+bytes2read ≤ packetLen) (hs : s.Supplies n)
    (hn : packetLen-total ≤ n) : ∃ out, drainLoop packetLen total bytes2read buf s = .ok out := by
  induction n using Nat.strong_induction_on generalizing total bytes2read buf s with
  | _ n ih =>
    obtain ⟨r,hr,hrc,-,-,hrest⟩ := networkRead_returns s n bytes2read hs (by omega)
    obtain ⟨buf',hwrite,hlen⟩ := networkRead_stored bytes2read buf s r hr hroom
    rw [drainLoop_of_ok packetLen hint total bytes2read buf buf' s r hle hr hwrite]
    by_cases hmore : r.rc ≠ 0 ∧ total+r.rc < packetLen
    · rw [if_pos hmore, if_pos (by omega)]
      obtain ⟨hnext,hsize,hfits⟩ := nextRead_bounds packetLen (total+r.rc) buf.length (by omega) hmore.2
      exact ih _ (by omega) _ _ _ _ hnext (by rw [hlen]; exact hsize) (by omega) hfits hrest (by omega)
    · rw [if_neg hmore]
      exact ⟨_,rfl⟩

/-- The call for the packet `p` returns when its bytes come, one at least with each `recv`. -/
theorem readPacket_returns (p : WirePacket) (more readBuf : List UInt8) (s : Socket)
    (hincoming : s.incoming = p.wire ++ more) (hs : s.Supplies p.wire.length)
    (hbuf : 5 ≤ readBuf.length) : ∃ out, readPacket readBuf s = .ok out := by
  have hwire : p.wire.length = 1+p.digits.length+p.body.length := by
    rw [WirePacket.wire, List.length_cons, List.length_append]
    omega
  obtain ⟨r,hr,hrc,hgot,hsplit,hrest⟩ := networkRead_returns s _ 1 hs (by omega)
  obtain ⟨c,hc⟩ := List.length_eq_one_iff.mp hgot
  rw [Nat.cast_one] at hrc
  obtain ⟨buf,hwrite,hlen⟩ := networkRead_stored 1 readBuf s r hr (by omega)
  have hmore : r.socket.incoming = p.digits ++ (p.body ++ more) := by
    rw [hincoming, hc, WirePacket.wire, List.cons_append, List.append_assoc] at hsplit
    exact (List.cons.inj hsplit).2.symm
  obtain ⟨⟨n,t⟩,hdecode⟩ := decodePacket_returns 4 0 1 _ _ r.socket p.digits _ p.counted hmore hrest
    (by omega)
  have hn := decodePacket_lt 4 0 1 (2^28) _ _ n (by norm_num) hdecode
  obtain ⟨ptr,hptr,hmem,-⟩ := packetEncode_room buf n hn (by omega)
  obtain ⟨-,-,hpos,hposLe,-,digits,used,htook,hcases⟩ :=
    header_took p more readBuf buf s t r n ptr hincoming hr hwrite hrc hdecode hptr
  obtain ⟨hgood,hbody⟩ := htook.supplies hs
  -- no call failed, so the length is that of the body, and the body is still to come
  obtain ⟨rfl,rfl⟩ : digits = p.digits ∧ n = p.body.length := by
    obtain ⟨-,hdigits,hn⟩ | ⟨hbad,-,-⟩ := hcases
    · exact ⟨hdigits,hn⟩
    · exact absurd hgood hbad
  have hrestLen : p.wire.length-(p.header.byte :: p.digits).length = p.body.length := by
    rw [List.length_cons]
    omega
  rw [hrestLen] at hbody
  unfold readPacket
  rw [hr, ok_bind, (store_eq_ok_iff _ _ _ _).mpr hwrite, ok_bind, if_neg (not_not.mpr hrc), hdecode,
    ok_bind]
  simp only [hptr]
  by_cases hlong : buf.length < ptr.pos+p.body.length
  · obtain ⟨hfirst,hroom,htotal⟩ :=
      firstRead_bounds p.body.length ptr.mem.length (by omega) (by omega)
    obtain ⟨out,hdrain⟩ := drainLoop_returns p.body.length (by omega) _ 0 _ ptr.mem t hfirst hroom
      le_rfl htotal hbody (by omega)
    rw [if_pos hlong, packetDrain, hdrain]
    exact ⟨_,rfl⟩
  · rw [if_neg hlong]
    by_cases hzero : 0 < p.body.length
    · obtain ⟨rest,hread,hrc',hgot',-⟩ := networkRead_returns t _ p.body.length hbody le_rfl
      obtain ⟨buf',hwrite'⟩ := Option.isSome_iff_exists.mp
        ((writeAt_isSome_iff ptr.mem ptr.pos rest.got).mpr (by omega))
      rw [if_pos hzero, hread, ok_bind, (store_eq_ok_iff _ _ _ _).mpr hwrite', ok_bind,
        if_neg (not_not.mpr hrc')]
      exact ⟨_,rfl⟩
    · rw [if_neg hzero]
      exact ⟨_,rfl⟩

/-- `n` calls one after the other. -/
def readPackets : ℕ → List UInt8 → Socket → Except Stop (List PacketRead)
  | 0, _, _ => .ok []
  | n+1, readBuf, s => do
    let out ← readPacket readBuf s
    let outs ← readPackets n out.readBuf out.socket
    return out :: outs

/-- Whatever the packets and however their bytes come, as long as each `recv` hands some
out the calls return, stay in the buffer and in step: each returns the next packet, or drops
it when it is too long for the buffer. -/
theorem packets_read_in_step (ps : List WirePacket) (more readBuf : List UInt8) (s : Socket)
    (hincoming : s.incoming = ps.flatMap WirePacket.wire ++ more) (hgood : ∀ o ∈ s.recvs, o.Good)
    (hcalls : (ps.flatMap WirePacket.wire).length ≤ s.recvs.length) (hbuf : 5 ≤ readBuf.length) :
    ∃ outs, readPackets ps.length readBuf s = .ok outs ∧
      List.Forall₂ (fun p out => p.ReadAs readBuf.length out) ps outs ∧
      ∀ out ∈ outs.getLast?, out.socket.incoming = more := by
  induction ps generalizing readBuf s with
  | nil => exact ⟨[], rfl, .nil, by simp⟩
  | cons p ps ih =>
    rw [List.flatMap_cons, List.append_assoc] at hincoming
    rw [List.flatMap_cons, List.length_append] at hcalls
    have hbytes : p.wire.length ≤ s.incoming.length := by
      rw [hincoming, List.length_append]
      exact Nat.le_add_right _ _
    obtain ⟨out,hread⟩ := readPacket_returns p _ readBuf s hincoming
      ⟨hgood, (Nat.le_add_right _ _).trans hcalls, hbytes⟩ hbuf
    obtain ⟨hlen,taken,used,htook,hwhole,-⟩ := readPacket_took p _ readBuf s out hincoming hread
    rw [htook.recvs, List.forall_mem_append] at hgood
    obtain ⟨rfl,hreadAs⟩ := hwhole hgood.1
    have hnext : out.socket.incoming = ps.flatMap WirePacket.wire ++ more :=
      (List.append_cancel_left (hincoming.symm.trans htook.incoming)).symm
    have hused := htook.each hgood.1
    rw [htook.recvs, List.length_append] at hcalls
    obtain ⟨outs,hrun,hall,hlast⟩ := ih out.readBuf out.socket hnext hgood.2 (by omega)
      (by rw [hlen]; exact hbuf)
    rw [hlen] at hall
    refine ⟨out :: outs, ?_, .cons hreadAs hall, ?_⟩
    · rw [List.length_cons, readPackets, hread, ok_bind, hrun]
      rfl
    · cases outs with
      | nil =>
        obtain rfl := List.forall₂_nil_right_iff.mp hall
        intro last hmem
        obtain rfl := Option.some.inj hmem
        exact hnext
      | cons next outs =>
        rw [List.getLast?_cons_cons]
        exact hlast

/-- Two packets in five bytes of buffer, the second with eight bytes too many. -/
theorem packets_read_in_step_two :
    let ps : List WirePacket := [⟨headerOf .pingresp 0 0 0, [0], [], by decide⟩,
      ⟨headerOf .publish 0 0 0, [11], [0,1,97,1,2,3,4,5,6,7,8], by decide⟩]
    ∃ outs, readPackets 2 [0,0,0,0,0] ⟨ps.flatMap WirePacket.wire, List.replicate 15 (.bytes 4)⟩ =
        .ok outs ∧ List.Forall₂ (fun p out => p.ReadAs 5 out) ps outs ∧
      ∀ out ∈ outs.getLast?, out.socket.incoming = [] := by
  intro ps
  apply packets_read_in_step ps [] [0,0,0,0,0] ⟨ps.flatMap WirePacket.wire, List.replicate 15 (.bytes 4)⟩
    (List.append_nil _).symm ?_ (by decide) le_rfl
  intro o ho
  rw [List.eq_of_mem_replicate ho]
  exact ⟨4,rfl⟩

end CppOperate.Mqtt
