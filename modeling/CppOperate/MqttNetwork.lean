import CppOperate.CLoops
import CppOperate.MqttTransport
import Mathlib

/-! How the client (`mqttclient/mqttclient.c`) reads packets from its TCP connection:
`recv` hands out pieces of any size, fails after a timeout, or says that the peer is
gone, and the client reads the header, the length and the rest in turn. -/
namespace CppOperate.Mqtt
open ByteMemory CLoops WireFormats

/-- What a call of `recv` does: it hands out at most `k+1` bytes, returns 0, or -1. -/
inductive Recv
  | bytes (k : ℕ)
  | closed
  | failed
deriving DecidableEq, Repr

/-- The bytes the peer sends, and what the next calls of `recv` do. -/
structure Socket where
  incoming : List UInt8
  recvs : List Recv
deriving DecidableEq, Repr

/-- Why a call did not return: it waits for `recv`, or has left the buffer, or an `int`
has overflowed. -/
inductive Stop
  | waiting
  | outside
  | overflow
deriving DecidableEq, Repr

/-- What a read returns, the bytes it stored, and the socket. -/
structure Received where
  rc : ℤ
  got : List UInt8
  socket : Socket
deriving DecidableEq, Repr

/-- The loop of `platform_net_socket_recv_timeout`: on an error the bytes it already has
do not count. -/
def recvLoop (len : ℕ) :
    List Recv → (nleft : ℕ) → (ptr incoming : List UInt8) → Except Stop Received
  | recvs, 0, ptr, incoming => .ok ⟨len, ptr, ⟨incoming,recvs⟩⟩
  | [], _+1, _, _ => .error .waiting
  | .failed :: recvs, _+1, ptr, incoming => .ok ⟨-1, ptr, ⟨incoming,recvs⟩⟩
  | .closed :: recvs, nleft+1, ptr, incoming => .ok ⟨(len:ℤ)-(nleft+1:ℕ), ptr, ⟨incoming,recvs⟩⟩
  | .bytes k :: recvs, nleft+1, ptr, incoming =>
    let got := incoming.take (min k nleft+1)
    if got = [] then .error .waiting
    else recvLoop len recvs (nleft+1-got.length) (ptr ++ got) (incoming.drop got.length)

/-- `network_read` of a TCP connection. -/
def networkRead (s : Socket) (len : ℕ) : Except Stop Received :=
  recvLoop len s.recvs len [] s.incoming

def mqttSuccessError : ℤ := 0
def mqttNothingToReadError : ℤ := -7
def mqttBufferTooShortError : ℤ := -8
def mqttSendPacketError : ℤ := -19

/-- The loop of `mqtt_decode_packet` when `left` more digits are allowed. A digit that
cannot be read ends it like the last one. -/
def decodePacket : (left value multiplier : ℕ) → Socket → Except Stop (ℕ × Socket)
  | 0, value, _, s => .ok (value,s)
  | left+1, value, multiplier, s => do
    let r ← networkRead s 1
    if r.rc ≠ 1 then return (value,r.socket)
    let i := r.got.headD 0
    let value := value+(i &&& 127).toNat*multiplier
    if i &&& 128 ≠ 0 then decodePacket left value (multiplier*128) r.socket
    else return (value,r.socket)

/-- Stores bytes in the read buffer. -/
def store (buf : List UInt8) (i : ℕ) (bs : List UInt8) : Except Stop (List UInt8) :=
  match writeAt buf i bs with
  | some buf => .ok buf
  | none => .error .outside

theorem recvLoop_recvs_le (len : ℕ) (recvs : List Recv) (nleft : ℕ) (ptr incoming : List UInt8)
    (r : Received) (h : recvLoop len recvs nleft ptr incoming = .ok r) :
    r.socket.recvs.length ≤ recvs.length := by
  induction recvs generalizing nleft ptr incoming with
  | nil =>
    cases nleft with
    | zero =>
      obtain rfl := Except.ok.inj h
      exact le_rfl
    | succ nleft => simp [recvLoop] at h
  | cons o recvs ih =>
    cases nleft with
    | zero =>
      obtain rfl := Except.ok.inj h
      exact le_rfl
    | succ nleft =>
      rw [List.length_cons]
      cases o with
      | failed =>
        obtain rfl := Except.ok.inj h
        exact Nat.le_succ _
      | closed =>
        obtain rfl := Except.ok.inj h
        exact Nat.le_succ _
      | bytes k =>
        simp only [recvLoop] at h
        split_ifs at h
        exact (ih _ _ _ h).trans (Nat.le_succ _)

/-- A read that returns something has called `recv`. -/
theorem networkRead_recvs_lt (s : Socket) (len : ℕ) (r : Received)
    (h : networkRead s len = .ok r) (hrc : r.rc ≠ 0) : r.socket.recvs.length < s.recvs.length := by
  unfold networkRead at h
  cases len with
  | zero =>
    have hr : r = ⟨0, [], ⟨s.incoming,s.recvs⟩⟩ := by
      cases hrecvs : s.recvs <;> rw [hrecvs] at h <;> exact (Except.ok.inj h).symm
    rw [hr] at hrc
    exact absurd rfl hrc
  | succ len =>
    cases hrecvs : s.recvs with
    | nil =>
      rw [hrecvs] at h
      contradiction
    | cons o recvs =>
      rw [hrecvs] at h
      rw [List.length_cons, Nat.lt_succ_iff]
      cases o with
      | failed =>
        obtain rfl := Except.ok.inj h
        exact le_rfl
      | closed =>
        obtain rfl := Except.ok.inj h
        exact le_rfl
      | bytes k =>
        simp only [recvLoop] at h
        split_ifs at h
        exact recvLoop_recvs_le _ _ _ _ _ _ h

/-- `bytes2read` of the next round of `mqtt_packet_drain`, when `left` bytes are left. -/
def nextRead (size : ℕ) (left : ℤ) : ℕ := if (size:ℤ) ≤ left then size else left.toNat

/-- The loop of `mqtt_packet_drain`: a failed read counts as minus one byte, in the `int`
`total_bytes_read`. -/
def drainLoop (packetLen : ℕ) (total : ℤ) (bytes2read : ℕ) (buf : List UInt8) (s : Socket) :
    Except Stop (List UInt8 × Socket) :=
  match _hread : networkRead s bytes2read with
  | .error e => .error e
  | .ok r =>
    match writeAt buf 0 r.got with
    | none => .error .outside
    | some buf =>
      if r.rc ≠ 0 then
        match intAdd total r.rc, intAdd packetLen (-(total+r.rc)) with
        | some total, some left =>
          if total < packetLen then drainLoop packetLen total (nextRead buf.length left) buf r.socket
          else .ok (buf,r.socket)
        | _, _ => .error .overflow
      else .ok (buf,r.socket)
termination_by s.recvs.length
decreasing_by
  exact networkRead_recvs_lt s _ r (by assumption) (by assumption)

def packetDrain (packetLen : ℕ) (buf : List UInt8) (s : Socket) :
    Except Stop (List UInt8 × Socket) :=
  drainLoop packetLen 0 (if packetLen < buf.length then packetLen else buf.length) buf s

/-- What `mqtt_read_packet` returns and stores in `*packet_type`, the read buffer and the
socket after it. -/
structure PacketRead where
  rc : ℤ
  packetType : ℕ
  readBuf : List UInt8
  socket : Socket
deriving DecidableEq, Repr

/-- A packet has been read: its type is in the header at the front of the buffer. -/
def PacketRead.whole (readBuf : List UInt8) (s : Socket) : PacketRead :=
  ⟨mqttSuccessError, (MqttHeader.ofByte (readBuf.headD 0)).type.toNat, readBuf, s⟩

/-- The read buffer has `mqtt_read_buf_size` bytes, and `*packet_type` is 0 before the call. -/
def readPacket (readBuf : List UInt8) (s : Socket) : Except Stop PacketRead := do
  let r ← networkRead s 1
  let readBuf ← store readBuf 0 r.got
  if r.rc ≠ 1 then return ⟨mqttNothingToReadError, 0, readBuf, r.socket⟩
  let (remainLen,s) ← decodePacket 4 0 1 r.socket
  match packetEncode ⟨readBuf,1⟩ remainLen with
  | none => throw .outside
  | some ptr =>
    if readBuf.length < ptr.pos+remainLen then
      let (readBuf,s) ← packetDrain remainLen ptr.mem s
      return ⟨mqttBufferTooShortError, 0, readBuf, s⟩
    if 0 < remainLen then
      let r ← networkRead s remainLen
      let readBuf ← store ptr.mem ptr.pos r.got
      if r.rc ≠ remainLen then return ⟨mqttNothingToReadError, 0, readBuf, r.socket⟩
      return PacketRead.whole readBuf r.socket
    else return PacketRead.whole ptr.mem s

def Recv.Good (o : Recv) : Prop := ∃ k, o = .bytes k

theorem Recv.failed_bad : ¬ Recv.failed.Good := by
  rintro ⟨k,hk⟩
  contradiction

theorem Recv.closed_bad : ¬ Recv.closed.Good := by
  rintro ⟨k,hk⟩
  contradiction

/-- Between the two moments the bytes `taken` were handed out, by the calls `used`; each
of them that did not fail handed out at least one. -/
structure Socket.Took (s s' : Socket) (taken : List UInt8) (used : List Recv) : Prop where
  incoming : s.incoming = taken ++ s'.incoming
  recvs : s.recvs = used ++ s'.recvs
  each : (∀ o ∈ used, o.Good) → used.length ≤ taken.length

theorem Socket.Took.refl (s : Socket) : s.Took s [] [] := ⟨rfl, rfl, fun _ => le_rfl⟩

theorem Socket.Took.trans {s t u : Socket} {as bs : List UInt8} {us vs : List Recv}
    (hst : s.Took t as us) (htu : t.Took u bs vs) : s.Took u (as ++ bs) (us ++ vs) := by
  refine ⟨?_, ?_, ?_⟩
  · rw [hst.incoming, htu.incoming, List.append_assoc]
  · rw [hst.recvs, htu.recvs, List.append_assoc]
  · rw [List.forall_mem_append, List.length_append, List.length_append]
    rintro ⟨hus,hvs⟩
    exact Nat.add_le_add (hst.each hus) (htu.each hvs)

/-- How a read of `len` bytes can end: with all of them, or at a call that failed, or at
the end of the connection. -/
inductive Received.Ends (len : ℕ) (r : Received) : List Recv → Prop
  | full (used : List Recv) (hused : ∀ o ∈ used, o.Good) (hgot : r.got.length = len)
      (hrc : r.rc = len) : Ends len r used
  | failed (used : List Recv) (hused : ∀ o ∈ used, o.Good) (hgot : r.got.length < len)
      (hrc : r.rc = -1) : Ends len r (used ++ [.failed])
  | closed (used : List Recv) (hused : ∀ o ∈ used, o.Good) (hgot : r.got.length < len)
      (hrc : r.rc = r.got.length) : Ends len r (used ++ [.closed])

theorem Received.Ends.cons {len : ℕ} {r : Received} {used : List Recv} (h : r.Ends len used)
    (k : ℕ) : r.Ends len (.bytes k :: used) := by
  have hcons {used : List Recv} (hused : ∀ o ∈ used, o.Good) : ∀ o ∈ Recv.bytes k :: used, o.Good :=
    List.forall_mem_cons.mpr ⟨⟨k,rfl⟩,hused⟩
  cases h with
  | full _ hused hgot hrc => exact .full _ (hcons hused) hgot hrc
  | failed used hused hgot hrc => exact .failed (.bytes k :: used) (hcons hused) hgot hrc
  | closed used hused hgot hrc => exact .closed (.bytes k :: used) (hcons hused) hgot hrc

theorem recvLoop_ok (len : ℕ) (recvs : List Recv) (nleft : ℕ) (ptr incoming : List UInt8)
    (r : Received) (hlen : ptr.length+nleft = len) (h : recvLoop len recvs nleft ptr incoming = .ok r) :
    ∃ taken used, (Socket.mk incoming recvs).Took r.socket taken used ∧ r.got = ptr ++ taken ∧
      r.Ends len used := by
  induction recvs generalizing nleft ptr incoming with
  | nil =>
    cases nleft with
    | zero =>
      obtain rfl := Except.ok.inj h
      exact ⟨[], [], .refl _, (List.append_nil _).symm, .full [] (by simp) hlen rfl⟩
    | succ nleft => simp [recvLoop] at h
  | cons o recvs ih =>
    cases nleft with
    | zero =>
      obtain rfl := Except.ok.inj h
      exact ⟨[], [], .refl _, (List.append_nil _).symm, .full [] (by simp) hlen rfl⟩
    | succ nleft =>
      cases o with
      | failed =>
        obtain rfl := Except.ok.inj h
        exact ⟨[], [.failed], ⟨rfl, rfl, fun hall => absurd (hall _ List.mem_cons_self) Recv.failed_bad⟩,
          (List.append_nil _).symm, .failed [] (by simp) (by show ptr.length < len; omega) rfl⟩
      | closed =>
        obtain rfl := Except.ok.inj h
        refine ⟨[], [.closed], ⟨rfl, rfl, fun hall => absurd (hall _ List.mem_cons_self) Recv.closed_bad⟩,
          (List.append_nil _).symm, .closed [] (by simp) (by show ptr.length < len; omega) ?_⟩
        show (len:ℤ)-(nleft+1:ℕ) = ptr.length
        omega
      | bytes k =>
        simp only [recvLoop] at h
        split_ifs at h with hgot
        have hle : (incoming.take (min k nleft+1)).length ≤ nleft+1 := by
          rw [List.length_take]
          omega
        obtain ⟨taken,used,htook,hr,hends⟩ := ih _ _ _ (by rw [List.length_append]; omega) h
        refine ⟨incoming.take (min k nleft+1) ++ taken, .bytes k :: used, ⟨?_, ?_, ?_⟩, ?_, hends.cons k⟩
        · rw [List.append_assoc, ← htook.incoming]
          rw [List.length_take, List.take_eq_take_min, min_comm, List.take_append_drop]
        · rw [List.cons_append, ← htook.recvs]
        · intro hall
          have hone := List.length_pos_of_ne_nil hgot
          have hused := htook.each fun o ho => hall o (List.mem_cons_of_mem _ ho)
          rw [List.length_cons, List.length_append]
          omega
        · rw [hr, List.append_assoc]

theorem recvLoop_error (len : ℕ) (recvs : List Recv) (nleft : ℕ) (ptr incoming : List UInt8)
    (e : Stop) (h : recvLoop len recvs nleft ptr incoming = .error e) : e = .waiting := by
  induction recvs generalizing nleft ptr incoming with
  | nil =>
    cases nleft with
    | zero => contradiction
    | succ nleft => exact (Except.error.inj h).symm
  | cons o recvs ih =>
    cases nleft with
    | zero => contradiction
    | succ nleft =>
      cases o with
      | failed => contradiction
      | closed => contradiction
      | bytes k =>
        simp only [recvLoop] at h
        split_ifs at h
        · exact (Except.error.inj h).symm
        · exact ih _ _ _ h

theorem networkRead_error (s : Socket) (len : ℕ) (e : Stop) (h : networkRead s len = .error e) :
    e = .waiting := recvLoop_error len s.recvs len [] s.incoming e h

theorem networkRead_ok (s : Socket) (len : ℕ) (r : Received) (h : networkRead s len = .ok r) :
    ∃ used, s.Took r.socket r.got used ∧ r.Ends len used := by
  obtain ⟨taken,used,htook,hgot,hends⟩ :=
    recvLoop_ok len s.recvs len [] s.incoming r (Nat.zero_add len) h
  rw [List.nil_append] at hgot
  rw [hgot]
  exact ⟨used, htook, hends⟩

theorem Received.Ends.length_le {len : ℕ} {r : Received} {used : List Recv} (h : r.Ends len used) :
    r.got.length ≤ len := by
  cases h with
  | full _ _ hgot _ => exact hgot.le
  | failed _ _ hgot _ => exact hgot.le
  | closed _ _ hgot _ => exact hgot.le

theorem Received.Ends.rc_le {len : ℕ} {r : Received} {used : List Recv} (h : r.Ends len used) :
    r.rc ≤ len := by
  cases h with
  | full _ _ _ hrc => exact hrc.le
  | failed _ _ _ hrc => omega
  | closed _ _ hgot hrc => omega

/-- The number asked for is returned exactly if no call failed or found the end. -/
theorem Received.Ends.rc_eq_iff {len : ℕ} {r : Received} {used : List Recv} (h : r.Ends len used) :
    (r.rc = len ↔ ∀ o ∈ used, o.Good) ∧ (r.got.length = len ↔ ∀ o ∈ used, o.Good) := by
  have hbad {o : Recv} {used : List Recv} (ho : ¬ o.Good) : ¬ ∀ o' ∈ used ++ [o], o'.Good :=
    fun hall => ho (hall o (List.mem_append_right _ List.mem_cons_self))
  cases h with
  | full _ hused hgot hrc => exact ⟨iff_of_true hrc hused, iff_of_true hgot hused⟩
  | failed used hused hgot hrc =>
    exact ⟨iff_of_false (by omega) (hbad Recv.failed_bad), iff_of_false hgot.ne (hbad Recv.failed_bad)⟩
  | closed used hused hgot hrc =>
    exact ⟨iff_of_false (by omega) (hbad Recv.closed_bad), iff_of_false hgot.ne (hbad Recv.closed_bad)⟩

theorem decodePacket_succ (left value multiplier : ℕ) (s : Socket) :
    decodePacket (left+1) value multiplier s = networkRead s 1 >>= fun r =>
      if r.rc ≠ 1 then .ok (value,r.socket)
      else if r.got.headD 0 &&& 128 ≠ 0 then
        decodePacket left (value+(r.got.headD 0 &&& 127).toNat*multiplier) (multiplier*128) r.socket
      else .ok (value+(r.got.headD 0 &&& 127).toNat*multiplier, r.socket) := rfl

theorem decodePacket_error (left value multiplier : ℕ) (s : Socket) (e : Stop)
    (h : decodePacket left value multiplier s = .error e) : e = .waiting := by
  induction left generalizing value multiplier s with
  | zero => contradiction
  | succ left ih =>
    rw [decodePacket_succ] at h
    cases hread : networkRead s 1 with
    | error e' =>
      rw [hread] at h
      obtain rfl := Except.error.inj h
      exact networkRead_error s 1 e' hread
    | ok r =>
      rw [hread, ok_bind] at h
      split_ifs at h
      exact ih _ _ _ h

/-- The length has at most `left` digits, whatever is read. -/
theorem decodePacket_lt (left value multiplier bound : ℕ) (s s' : Socket) (n : ℕ)
    (hbound : value+multiplier*128^left < bound+multiplier)
    (h : decodePacket left value multiplier s = .ok (n,s')) : n < bound := by
  induction left generalizing value multiplier s with
  | zero =>
    obtain ⟨rfl,-⟩ := Prod.mk.inj (Except.ok.inj h)
    rw [pow_zero, Nat.mul_one] at hbound
    omega
  | succ left ih =>
    have hpow : 1 ≤ 128^left := Nat.one_le_pow _ _ (by norm_num)
    have hsplit : multiplier*128^(left+1) = multiplier*128*128^left := by ring
    have hlast : multiplier*128 ≤ multiplier*128*128^left := Nat.le_mul_of_pos_right _ hpow
    rw [decodePacket_succ] at h
    obtain ⟨r,-,h⟩ := (bind_eq_ok_iff _ _ _).mp h
    have hi : (r.got.headD 0 &&& 127).toNat ≤ 127 := by
      rw [and_127_toNat]
      omega
    have hmul := Nat.mul_le_mul_right multiplier hi
    split_ifs at h
    · obtain ⟨rfl,-⟩ := Prod.mk.inj (Except.ok.inj h)
      omega
    · exact ih _ _ _ (by omega) h
    · obtain ⟨rfl,-⟩ := Prod.mk.inj (Except.ok.inj h)
      omega

/-- The digits of a length: all are read, or one of them could not be. -/
theorem decodePacket_ok (left value multiplier : ℕ) (s s' : Socket) (n m : ℕ)
    (digits more : List UInt8) (hread : readBase128 left digits = some (m,[]))
    (hincoming : s.incoming = digits ++ more)
    (h : decodePacket left value multiplier s = .ok (n,s')) :
    ∃ taken used, s.Took s' taken used ∧
      (((∀ o ∈ used, o.Good) ∧ taken = digits ∧ n = value+m*multiplier) ∨
        ((¬ ∀ o ∈ used, o.Good) ∧ taken.length < digits.length ∧ n ≤ value+m*multiplier)) := by
  induction left generalizing value multiplier s digits m with
  | zero => simp [readBase128] at hread
  | succ left ih =>
    cases digits with
    | nil => simp [readBase128] at hread
    | cons b digits =>
      rw [decodePacket_succ] at h
      obtain ⟨r,hr,h⟩ := (bind_eq_ok_iff _ _ _).mp h
      obtain ⟨used,htook,hends⟩ := networkRead_ok s 1 r hr
      obtain ⟨hrc,hgot⟩ := hends.rc_eq_iff
      rw [Nat.cast_one] at hrc
      by_cases hgood : ∀ o ∈ used, o.Good
      · obtain ⟨c,hc⟩ := List.length_eq_one_iff.mp (hgot.mpr hgood)
        have hhead := htook.incoming
        rw [hincoming, hc, List.cons_append] at hhead
        obtain ⟨rfl,hmore⟩ := List.cons.inj hhead
        rw [if_neg (not_not.mpr (hrc.mpr hgood)), hc, List.headD_cons] at h
        rw [readBase128] at hread
        by_cases hb : b.toNat < 128
        · rw [if_pos hb, Option.some.injEq, Prod.mk.injEq] at hread
          obtain ⟨rfl,rfl⟩ := hread
          rw [if_neg (not_not.mpr ((and_128_eq_zero_iff b).mpr hb))] at h
          obtain ⟨rfl,rfl⟩ := Prod.mk.inj (Except.ok.inj h)
          refine ⟨r.got, used, htook, Or.inl ⟨hgood, hc, ?_⟩⟩
          rw [and_127_toNat, Nat.mod_eq_of_lt hb]
        · rw [if_neg hb] at hread
          obtain ⟨⟨m',rest⟩,hm,hn⟩ := Option.map_eq_some_iff.mp hread
          obtain ⟨rfl,rfl⟩ := Prod.mk.inj hn
          have hbit : b &&& 128 ≠ 0 := fun h0 => hb ((and_128_eq_zero_iff b).mp h0)
          have hvalue : value+(b &&& 127).toNat*multiplier+m'*(multiplier*128) =
              value+(b.toNat-128+128*m')*multiplier := by
            have hb256 := b.toNat_lt
            rw [and_127_toNat, show b.toNat % 128 = b.toNat-128 by omega]
            ring
          rw [if_pos hbit] at h
          obtain ⟨taken,used',htook',hcases⟩ := ih _ _ _ m' digits hm hmore.symm h
          rw [hvalue] at hcases
          refine ⟨[b] ++ taken, used ++ used', hc ▸ htook.trans htook', ?_⟩
          rw [List.forall_mem_append, and_iff_right hgood]
          obtain ⟨hall,rfl,hn⟩ | ⟨hnot,hlt,hn⟩ := hcases
          · exact Or.inl ⟨hall, rfl, hn⟩
          · exact Or.inr ⟨hnot, Nat.succ_lt_succ hlt, hn⟩
      · have hlt := lt_of_le_of_ne hends.length_le (mt hgot.mp hgood)
        rw [if_pos (mt hrc.mp hgood)] at h
        obtain ⟨rfl,rfl⟩ := Prod.mk.inj (Except.ok.inj h)
        refine ⟨r.got, used, htook, Or.inr ⟨hgood, ?_, Nat.le_add_right _ _⟩⟩
        rw [List.length_cons]
        omega

section Drain
variable (packetLen : ℕ)

/-- A read of no more than the buffer holds is stored in it. -/
theorem networkRead_stored (len : ℕ) (buf : List UInt8) (s : Socket) (r : Received)
    (hread : networkRead s len = .ok r) (hroom : len ≤ buf.length) :
    ∃ buf', writeAt buf 0 r.got = some buf' ∧ buf'.length = buf.length := by
  obtain ⟨used,-,hends⟩ := networkRead_ok s len r hread
  have hle := hends.length_le
  obtain ⟨buf',hwrite⟩ := Option.isSome_iff_exists.mp
    ((writeAt_isSome_iff buf 0 r.got).mpr (by omega))
  exact ⟨buf', hwrite, writeAt_length _ _ _ _ hwrite⟩

/-- One round of the loop: `total_bytes_read` is never more than the packet's length, and
only its distance from it can leave `int`. -/
theorem drainLoop_of_ok (hint : packetLen < 2^31) (total : ℤ) (bytes2read : ℕ) (buf buf' : List UInt8)
    (s : Socket) (r : Received) (htotal : total+bytes2read ≤ packetLen)
    (hread : networkRead s bytes2read = .ok r) (hwrite : writeAt buf 0 r.got = some buf') :
    drainLoop packetLen total bytes2read buf s =
      if r.rc ≠ 0 ∧ total+r.rc < packetLen then
        if packetLen-(total+r.rc) < 2^31 then
          drainLoop packetLen (total+r.rc) (nextRead buf.length (packetLen-(total+r.rc))) buf' r.socket
        else .error .overflow
      else .ok (buf',r.socket) := by
  have hlen := writeAt_length _ _ _ _ hwrite
  obtain ⟨used,-,hends⟩ := networkRead_ok s bytes2read r hread
  have hle := hends.rc_le
  rw [drainLoop]
  split
  · rename_i herror
    rw [hread] at herror
    contradiction
  · rename_i r' hok
    rw [hread] at hok
    obtain rfl := Except.ok.inj hok
    simp only [hwrite]
    by_cases hrc : r.rc = 0
    · simp [hrc]
    by_cases hin : packetLen-(total+r.rc) < 2^31
    · have hadd := intAdd_of_range total r.rc (by omega) (by omega)
      have hleft := intAdd_of_range packetLen (-(total+r.rc)) (by omega) (by omega)
      rw [← sub_eq_add_neg] at hleft
      simp only [hadd, hleft, hlen, ne_eq, hrc, not_false_eq_true, true_and, if_true, if_pos hin]
    · have hleft := intAdd_of_overflow packetLen (-(total+r.rc)) (by omega)
      have hmore : total+r.rc < packetLen := by omega
      simp only [hleft, ne_eq, hrc, not_false_eq_true, true_and, if_true, if_pos hmore, if_neg hin]
      cases intAdd total r.rc <;> rfl

theorem drainLoop_of_error (total : ℤ) (bytes2read : ℕ) (buf : List UInt8) (s : Socket) (e : Stop)
    (hread : networkRead s bytes2read = .error e) :
    drainLoop packetLen total bytes2read buf s = .error e := by
  rw [drainLoop]
  split
  · rename_i herror
    rw [hread] at herror
    obtain rfl := Except.error.inj herror
    rfl
  · rename_i hok
    rw [hread] at hok
    contradiction

/-- What the next round reads: not more than is left, nor than the buffer holds. -/
theorem nextRead_bounds (total : ℤ) (size : ℕ) (hsize : 0 < size) (h : total < packetLen) :
    0 < nextRead size (packetLen-total) ∧ nextRead size (packetLen-total) ≤ size ∧
      total+nextRead size (packetLen-total) ≤ packetLen := by
  unfold nextRead
  split_ifs <;> omega

/-- A drain stays in the buffer. -/
theorem drainLoop_error (hint : packetLen < 2^31) (total : ℤ) (bytes2read : ℕ) (buf : List UInt8)
    (s : Socket) (e : Stop) (hpos : 0 < buf.length) (hroom : bytes2read ≤ buf.length)
    (htotal : total+bytes2read ≤ packetLen)
    (h : drainLoop packetLen total bytes2read buf s = .error e) : e ≠ .outside := by
  induction hn : s.recvs.length using Nat.strong_induction_on
    generalizing total bytes2read buf s with
  | _ n ih =>
    cases hread : networkRead s bytes2read with
    | error e' =>
      rw [drainLoop_of_error packetLen total bytes2read buf s e' hread] at h
      obtain rfl := Except.error.inj h
      rw [networkRead_error s _ _ hread]
      decide
    | ok r =>
      obtain ⟨buf',hwrite,hlen⟩ := networkRead_stored bytes2read buf s r hread hroom
      rw [drainLoop_of_ok packetLen hint total bytes2read buf buf' s r htotal hread hwrite] at h
      split_ifs at h with hmore hin
      · have hfewer := networkRead_recvs_lt s bytes2read r hread hmore.1
        obtain ⟨-,hsize,hle⟩ := nextRead_bounds packetLen (total+r.rc) buf.length hpos hmore.2
        exact ih _ (by omega) _ _ _ _ (by omega) (by omega) hle h rfl
      · obtain rfl := Except.error.inj h
        decide

/-- The bytes a drain takes while the connection is open: those of the packet, and one
more for every read that failed, besides those that read had got. -/
theorem drainLoop_ok (hint : packetLen < 2^31) (total : ℤ) (bytes2read : ℕ) (buf buf' : List UInt8) (s s' : Socket)
    (hpos : 0 < bytes2read) (hroom : bytes2read ≤ buf.length) (htotal : total+bytes2read ≤ packetLen)
    (h : drainLoop packetLen total bytes2read buf s = .ok (buf',s')) :
    buf'.length = buf.length ∧ ∃ taken used, s.Took s' taken used ∧ (.closed ∉ used →
      packetLen-total+used.count .failed ≤ taken.length ∧
        (.failed ∉ used → (taken.length:ℤ) = packetLen-total)) := by
  induction hn : s.recvs.length using Nat.strong_induction_on
    generalizing total bytes2read buf s with
  | _ n ih =>
    cases hread : networkRead s bytes2read with
    | error e =>
      rw [drainLoop_of_error packetLen total bytes2read buf s e hread] at h
      contradiction
    | ok r =>
      obtain ⟨mem,hwrite,hlen⟩ := networkRead_stored bytes2read buf s r hread hroom
      obtain ⟨used,htook,hends⟩ := networkRead_ok s bytes2read r hread
      rw [drainLoop_of_ok packetLen hint total bytes2read buf mem s r htotal hread hwrite] at h
      have hgood {used : List Recv} (hused : ∀ o ∈ used, o.Good) : .failed ∉ used :=
        fun hmem => Recv.failed_bad (hused _ hmem)
      split_ifs at h with hmore hin
      · have hfewer := networkRead_recvs_lt s bytes2read r hread hmore.1
        obtain ⟨hnext,hsize,hle⟩ := nextRead_bounds packetLen (total+r.rc) buf.length (by omega) hmore.2
        obtain ⟨hlen',taken,used',htook',hcount⟩ := ih _ (by omega) (total+r.rc) _ mem r.socket hnext
          (by omega) hle h rfl
        refine ⟨hlen'.trans hlen, r.got ++ taken, used ++ used', htook.trans htook', ?_⟩
        intro hopen
        rw [List.mem_append, not_or] at hopen
        obtain ⟨hcount,hnone⟩ := hcount hopen.2
        rw [List.length_append, List.count_append, List.mem_append, not_or]
        cases hends with
        | full _ hused hgot hrc =>
          rw [List.count_eq_zero.mpr (hgood hused)]
          refine ⟨by push_cast; omega, ?_⟩
          rintro ⟨-,hnot⟩
          have htaken := hnone hnot
          push_cast
          omega
        | failed used hused hgot hrc =>
          rw [List.count_append, List.count_eq_zero.mpr (hgood hused), List.count_singleton_self]
          refine ⟨by push_cast; omega, ?_⟩
          rintro ⟨hnot,-⟩
          exact absurd (List.mem_append_right used List.mem_cons_self) hnot
        | closed used hused hgot hrc =>
          exact absurd (List.mem_append_right used List.mem_cons_self) hopen.1
      · obtain ⟨rfl,rfl⟩ := Prod.mk.inj (Except.ok.inj h)
        refine ⟨hlen, r.got, used, htook, ?_⟩
        intro hopen
        cases hends with
        | full _ hused hgot hrc =>
          rw [List.count_eq_zero.mpr (hgood hused)]
          exact ⟨by push_cast; omega, fun _ => by omega⟩
        | failed used hused hgot hrc => omega
        | closed used hused hgot hrc =>
          exact absurd (List.mem_append_right used List.mem_cons_self) hopen

/-- What the first round reads. -/
theorem firstRead_bounds (size : ℕ) (hlen : 0 < packetLen) (hsize : 0 < size) :
    0 < (if packetLen < size then packetLen else size) ∧
      (if packetLen < size then packetLen else size) ≤ size ∧
      (0:ℤ)+(if packetLen < size then packetLen else size : ℕ) ≤ packetLen := by
  split_ifs <;> omega

theorem packetDrain_error (hint : packetLen < 2^31) (buf : List UInt8) (s : Socket) (e : Stop)
    (hbuf : 0 < buf.length) (hlen : 0 < packetLen) (h : packetDrain packetLen buf s = .error e) :
    e ≠ .outside := by
  obtain ⟨-,hroom,htotal⟩ := firstRead_bounds packetLen buf.length hlen hbuf
  exact drainLoop_error packetLen hint 0 _ buf s e hbuf hroom htotal h

theorem packetDrain_ok (hint : packetLen < 2^31) (buf buf' : List UInt8) (s s' : Socket)
    (hbuf : 0 < buf.length) (hlen : 0 < packetLen)
    (h : packetDrain packetLen buf s = .ok (buf',s')) :
    buf'.length = buf.length ∧ ∃ taken used, s.Took s' taken used ∧ (.closed ∉ used →
      packetLen+used.count .failed ≤ taken.length ∧
        (.failed ∉ used → taken.length = packetLen)) := by
  obtain ⟨hpos,hroom,htotal⟩ := firstRead_bounds packetLen buf.length hlen hbuf
  obtain ⟨hbuf',taken,used,htook,hcount⟩ :=
    drainLoop_ok packetLen hint 0 _ buf buf' s s' hpos hroom htotal h
  refine ⟨hbuf', taken, used, htook, ?_⟩
  intro hopen
  obtain ⟨hle,hnone⟩ := hcount hopen
  exact ⟨by omega, fun hnot => by have hexact := hnone hnot; omega⟩

end Drain

end CppOperate.Mqtt
