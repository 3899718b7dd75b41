import CppOperate.MqttSerialize
import CppOperate.StepRuns
import Mathlib

/-! `MQTTPacket_readnb`, which reads packets from a transport that hands out the bytes
in pieces of any size: where a call can stop inside a packet, and that the next call
goes on from there. -/
namespace CppOperate.Mqtt
open ByteMemory WireFormats StepRuns

/-- `MQTTTransport`, without the transport itself: the numbers stay below `2^29` once
`state` is 1 or 2. -/
structure MqttTransport where
  multiplier : ℕ
  remLen : ℕ
  len : ℕ
  state : ℕ
deriving DecidableEq, Repr

/-- What the peer sends, and how much of it each call of `getfn` may hand out: `none` is
the error, 0 is to call again. -/
structure Supply where
  bytes : List UInt8
  grants : List (Option ℕ)
deriving DecidableEq, Repr

def Supply.getfn (s : Supply) (n : ℕ) : Option (List UInt8) × Supply :=
  match s.grants with
  | [] => (some [], s)
  | none :: grants => (none, { s with grants })
  | some g :: grants => (some (s.bytes.take (min g n)), ⟨s.bytes.drop (min g n), grants⟩)

/-- The fields as `MQTTPacket_decodenb` sets them on the first call. -/
def MqttTransport.initialized (trp : MqttTransport) : MqttTransport :=
  if trp.len = 0 then { trp with multiplier := 1, remLen := 0 } else trp

/-- The loop of `MQTTPacket_decodenb` when `left` more digits are allowed. -/
def packetDecodenbLoop : (left : ℕ) → MqttTransport → Supply → ℤ × MqttTransport × Supply
  | 0, trp, src => (readError, trp, src)
  | left+1, trp, src =>
    match src.getfn 1 with
    | (none, src) => (readError, trp, src)
    | (some [], src) => (0, trp, src)
    | (some (c :: _), src) =>
      let trp := { trp with
        len := trp.len+1
        remLen := trp.remLen+(c &&& 127).toNat*trp.multiplier
        multiplier := trp.multiplier*128 }
      if c &&& 128 ≠ 0 then packetDecodenbLoop left trp src else (trp.len, trp, src)

def packetDecodenb (trp : MqttTransport) (src : Supply) : ℤ × MqttTransport × Supply :=
  packetDecodenbLoop (4-trp.len) trp.initialized src

/-- The end of `MQTTPacket_readnb`: the type of the packet in the buffer. -/
def readnbType (buf : List UInt8) (trp : MqttTransport) (src : Supply) :
    Option (ℤ × List UInt8 × MqttTransport × Supply) :=
  buf[0]?.map fun c => ((MqttHeader.ofByte c).type.toNat, buf, { trp with state := 0 }, src)

/-- `case 2`: the bytes behind the length. -/
def readnbRest (buf : List UInt8) (trp : MqttTransport) (src : Supply) :
    Option (ℤ × List UInt8 × MqttTransport × Supply) :=
  if trp.remLen ≠ 0 then
    match src.getfn trp.remLen with
    | (none, src) => some (-1, buf, { trp with state := 0 }, src)
    | (some [], src) => some (0, buf, trp, src)
    | (some bs, src) => do
      let buf ← writeAt buf trp.len bs
      let trp := { trp with remLen := trp.remLen-bs.length, len := trp.len+bs.length }
      if trp.remLen ≠ 0 then return (0, buf, trp, src)
      readnbType buf trp src
  else readnbType buf trp src

/-- `case 1`: the length. It is stored before it is compared with the buffer's. -/
def readnbLength (buf : List UInt8) (buflen : ℤ) (trp : MqttTransport) (src : Supply) :
    Option (ℤ × List UInt8 × MqttTransport × Supply) :=
  match packetDecodenb trp src with
  | (rc, trp, src) => do
    if rc = readError then return (-1, buf, { trp with state := 0 }, src)
    if rc = 0 then return (0, buf, trp, src)
    let ptr ← packetEncode ⟨buf,1⟩ trp.remLen
    let trp := { trp with len := ptr.pos }
    if buflen < trp.remLen+trp.len then return (-1, ptr.mem, { trp with state := 0 }, src)
    readnbRest ptr.mem { trp with state := 2 } src

def packetReadnb (buf : List UInt8) (buflen : ℤ) (trp : MqttTransport) (src : Supply) :
    Option (ℤ × List UInt8 × MqttTransport × Supply) :=
  if trp.state = 2 then readnbRest buf trp src
  else if trp.state = 1 then readnbLength buf buflen trp src
  else
    match src.getfn 1 with
    | (none, src) => some (-1, buf, { trp with state := 0 }, src)
    | (some [], src) => some (0, buf, { trp with state := 0 }, src)
    | (some bs, src) => do
      let buf ← writeAt buf 0 bs
      readnbLength buf buflen { trp with len := 0, state := 1 } src

/-- A packet as it is sent. Its length may take more digits than it needs. -/
structure WirePacket where
  header : MqttHeader
  digits : List UInt8
  body : List UInt8
  counted : readBase128 4 digits = some (body.length, [])

namespace WirePacket

def wire (p : WirePacket) : List UInt8 := p.header.byte :: (p.digits ++ p.body)

/-- The packet as it stands in a buffer: its length stored anew. -/
def kept (p : WirePacket) : List UInt8 := frame p.header p.body

theorem kept_length (p : WirePacket) :
    p.kept.length = 1+(base128 p.body.length).length+p.body.length := frame_length _ _

end WirePacket

/-- No call of `getfn` fails. -/
def Supply.Sound (s : Supply) : Prop := ∀ g ∈ s.grants, g ≠ none

/-- The next call of `getfn` hands out a byte if there is one. -/
def Supply.Ready (s : Supply) : Prop := ∃ g grants, s.grants = some (g+1) :: grants

theorem Supply.getfn_eq (s : Supply) (n : ℕ) (hsound : s.Sound) (hn : 0 < n) :
    ∃ bs s', s.getfn n = (some bs,s') ∧ s.bytes = bs ++ s'.bytes ∧ bs.length ≤ n ∧ s'.Sound ∧
      (s.Ready → s.bytes ≠ [] → bs ≠ []) := by
  unfold Supply.getfn Supply.Ready
  match hg : s.grants with
  | [] =>
    refine ⟨[], s, rfl, rfl, Nat.zero_le n, hsound, ?_⟩
    rintro ⟨g,grants,hcons⟩
    contradiction
  | none :: grants =>
    exact absurd rfl (hsound none (by rw [hg]; exact List.mem_cons_self))
  | some g :: grants =>
    refine ⟨_, _, rfl, (List.take_append_drop _ _).symm, ?_, ?_, ?_⟩
    · rw [List.length_take]
      exact (min_le_left _ _).trans (min_le_right _ _)
    · intro g' hg'
      exact hsound g' (by rw [hg]; exact List.mem_cons_of_mem _ hg')
    · rintro ⟨g',grants',hcons⟩ hne
      obtain ⟨rfl⟩ : g = g'+1 := Option.some.inj (List.cons.inj hcons).1
      have hpos := List.length_pos_of_ne_nil hne
      apply List.ne_nil_of_length_pos
      rw [List.length_take]
      omega

/-- The supply after calls that did not fail, of which the first handed out a byte if
it was ready to. -/
structure Supply.Advances (s s' : Supply) : Prop where
  sound : s'.Sound
  le : s'.bytes.length ≤ s.bytes.length
  lt : s.Ready → s'.bytes.length < s.bytes.length

theorem Supply.Advances.trans {s t u : Supply} (hst : s.Advances t) (htu : t.Advances u) :
    s.Advances u :=
  ⟨htu.sound, htu.le.trans hst.le, fun h => htu.le.trans_lt (hst.lt h)⟩

/-- What is handed out when the next bytes are `left`: a part of them. -/
theorem Supply.getfn_left (s : Supply) (left more : List UInt8) (n : ℕ) (hsound : s.Sound)
    (hn : 0 < n) (hleft : n ≤ left.length) (hbytes : s.bytes = left ++ more) :
    ∃ bs left' s', s.getfn n = (some bs,s') ∧ left = bs ++ left' ∧ bs.length ≤ n ∧
      s'.bytes = left' ++ more ∧ s.Advances s' := by
  obtain ⟨bs,s',hget,hsplit,hlen,hsound',hready⟩ := s.getfn_eq n hsound hn
  rw [hbytes] at hsplit
  obtain ⟨left',rfl⟩ : bs <+: left :=
    List.prefix_of_prefix_length_le ⟨_,hsplit.symm⟩ (List.prefix_append left more) (by omega)
  rw [List.append_assoc, List.append_cancel_left_eq] at hsplit
  have hle : s'.bytes.length+bs.length = s.bytes.length := by
    rw [← hsplit, hbytes]
    simp only [List.length_append]
    omega
  refine ⟨bs, left', s', hget, rfl, hlen, hsplit.symm, hsound', by omega, ?_⟩
  intro h
  have hne : s.bytes ≠ [] := by
    apply List.ne_nil_of_length_pos
    rw [hbytes, List.length_append]
    omega
  have hpos := List.length_pos_of_ne_nil (hready h hne)
  omega

/-- The length is being read: `digits` are still to come, and it will be `n`. -/
structure MqttTransport.Counting (trp : MqttTransport) (digits : List UInt8) (n : ℕ) : Prop where
  initialized : trp.initialized = trp
  left : ∃ m, readBase128 (4-trp.len) digits = some (m,[]) ∧ trp.remLen+m*trp.multiplier = n

/-- One call of `MQTTPacket_decodenb`: it stops before some digit or has the length. -/
theorem packetDecodenbLoop_cases (trp : MqttTransport) (src : Supply) (digits more : List UInt8)
    (n : ℕ) (h : trp.Counting digits n) (hsound : src.Sound) (hbytes : src.bytes = digits ++ more) :
    ∃ rc trp' src', packetDecodenbLoop (4-trp.len) trp src = (rc,trp',src') ∧ src.Advances src' ∧
      trp'.state = trp.state ∧
      ((rc = 0 ∧ ∃ digits', trp'.Counting digits' n ∧ src'.bytes = digits' ++ more) ∨
        (0 < rc ∧ trp'.remLen = n ∧ src'.bytes = more)) := by
  obtain ⟨hinit,m,hread,rfl⟩ := h
  generalize hleft : 4-trp.len = left at hread
  induction left generalizing trp src digits m with
  | zero => simp [readBase128] at hread
  | succ left ih =>
    cases digits with
    | nil => simp [readBase128] at hread
    | cons b digits =>
      obtain ⟨bs,left',src',hget,hsplit,hlen,hbytes',hadvances⟩ := src.getfn_left _ more 1 hsound
        Nat.one_pos (by rw [List.length_cons]; omega) hbytes
      rw [packetDecodenbLoop, hget]
      cases bs with
      | nil =>
        obtain rfl : left' = b :: digits := hsplit.symm
        refine ⟨0, trp, src', rfl, hadvances, rfl, Or.inl ⟨rfl, b :: digits, ⟨hinit, m, ?_, rfl⟩,
          hbytes'⟩⟩
        rw [hleft]
        exact hread
      | cons c bs =>
        obtain rfl := List.eq_nil_of_length_eq_zero (Nat.eq_zero_of_le_zero (Nat.le_of_succ_le_succ hlen))
        obtain ⟨rfl,rfl⟩ := List.cons.inj hsplit
        rw [readBase128] at hread
        by_cases hb : b.toNat < 128
        · rw [if_pos hb, Option.some.injEq, Prod.mk.injEq] at hread
          obtain ⟨rfl,rfl⟩ := hread
          simp only [(and_128_eq_zero_iff b).mpr hb, ne_eq, not_true_eq_false, if_false]
          refine ⟨_, _, _, rfl, hadvances, rfl, Or.inr ⟨by positivity, ?_, hbytes'⟩⟩
          rw [and_127_toNat, Nat.mod_eq_of_lt hb]
        · rw [if_neg hb] at hread
          obtain ⟨⟨m',rest⟩,hm,hn⟩ := Option.map_eq_some_iff.mp hread
          obtain ⟨rfl,rfl⟩ := Prod.mk.inj hn
          have hbit : b &&& 128 ≠ 0 := fun h0 => hb ((and_128_eq_zero_iff b).mp h0)
          have hvalue : trp.remLen+(b &&& 127).toNat*trp.multiplier+m'*(trp.multiplier*128) =
              trp.remLen+(b.toNat-128+128*m')*trp.multiplier := by
            have hb256 := b.toNat_lt
            rw [and_127_toNat, show b.toNat % 128 = b.toNat-128 by omega]
            ring
          simp only [hbit, ne_eq, not_false_eq_true, if_true]
          obtain ⟨rc,trp',src'',hrun,hadvances',hstate,hcases⟩ := ih
            ⟨trp.multiplier*128, trp.remLen+(b &&& 127).toNat*trp.multiplier, trp.len+1, trp.state⟩
            src' digits hadvances.sound hbytes' rfl m' (by show 4-(trp.len+1) = left; omega) hm
          refine ⟨rc, trp', src'', hrun, hadvances.trans hadvances', hstate, ?_⟩
          simp only [hvalue] at hcases
          exact hcases

/-- Bytes stored behind what stands at the front of a buffer. -/
theorem writeAt_behind {α : Type} (front spare bs : List α) (h : bs.length ≤ spare.length) :
    writeAt (front ++ spare) front.length bs = some (front ++ bs ++ spare.drop bs.length) := by
  rw [writeAt_eq_some_iff_exists]
  refine ⟨front, spare.take bs.length, spare.drop bs.length, ?_, rfl, ?_, ?_⟩
  · rw [List.take_append_drop]
  · rw [List.length_take, min_eq_left h]
  · rw [List.append_assoc]

/-- A length stored behind the header at the front of a buffer. -/
theorem packetEncode_behind (b : UInt8) (spare : List UInt8) (n : ℕ) :
    packetEncode ⟨[b] ++ spare, 1⟩ n =
      if (base128 n).length ≤ spare.length then
        some ⟨(b :: base128 n) ++ spare.drop (base128 n).length, 1+(base128 n).length⟩
      else none := by
  rw [packetEncode_natCast, Cursor.put]
  split_ifs with h
  · have hwrite := writeAt_behind [b] spare _ h
    rw [List.length_singleton] at hwrite
    rw [hwrite]
    rfl
  · have hnone : writeAt ([b] ++ spare) 1 (base128 n) = none := by
      apply if_neg
      rw [List.length_append, List.length_singleton]
      omega
    rw [hnone]
    rfl

/-- Where the reader is in the packet `p`, the rest of which is still to come. -/
inductive Reading (buf : List UInt8) (trp : MqttTransport) (p : WirePacket) : List UInt8 → Prop
  | header (hstate : trp.state ≠ 1 ∧ trp.state ≠ 2) : Reading buf trp p p.wire
  | length (digits spare : List UInt8) (hstate : trp.state = 1)
      (hcounting : trp.initialized.Counting digits p.body.length)
      (hbuf : buf = [p.header.byte] ++ spare) : Reading buf trp p (digits ++ p.body)
  | rest (before after spare : List UInt8) (hstate : trp.state = 2) (hbody : p.body = before ++ after)
      (hafter : after ≠ []) (hremLen : trp.remLen = after.length)
      (hlen : trp.len = (p.header.byte :: (base128 p.body.length ++ before)).length)
      (hbuf : buf = (p.header.byte :: (base128 p.body.length ++ before)) ++ spare) :
      Reading buf trp p after

/-- What a call does when the packet `p` is next, and then `more`: it stops inside the
packet, or the packet is in the buffer and the next one begins. -/
def ReadOn (p : WirePacket) (more : List UInt8) (src : Supply) (buflen : ℕ)
    (result : Option (ℤ × List UInt8 × MqttTransport × Supply)) : Prop :=
  ∃ rc buf trp src', result = some (rc,buf,trp,src') ∧ buf.length = buflen ∧ src.Advances src' ∧
    ((rc = 0 ∧ ∃ left, Reading buf trp p left ∧ src'.bytes = left ++ more) ∨
      (rc = p.header.type.toNat ∧ p.kept <+: buf ∧ trp.state = 0 ∧ src'.bytes = more))

theorem readnbType_frame (p : WirePacket) (spare : List UInt8) (trp : MqttTransport) (src : Supply) :
    readnbType (p.kept ++ spare) trp src =
      some ((p.header.type.toNat:ℤ), p.kept ++ spare, { trp with state := 0 }, src) := by
  have hget : (p.kept ++ spare)[0]? = some p.header.byte := rfl
  unfold readnbType
  rw [hget, Option.map_some, MqttHeader.ofByte_byte]

theorem ReadOn.of_advances {p : WirePacket} {more : List UInt8} {src src' : Supply} {buflen : ℕ}
    {result : Option (ℤ × List UInt8 × MqttTransport × Supply)} (h : ReadOn p more src' buflen result)
    (hadvances : src.Advances src') : ReadOn p more src buflen result := by
  obtain ⟨rc,buf,trp,src'',hrun,hlen,hadvances',hcases⟩ := h
  exact ⟨rc, buf, trp, src'', hrun, hlen, hadvances.trans hadvances', hcases⟩

/-- A call that starts, or gets to, behind the length. -/
theorem readnbRest_readOn (p : WirePacket) (more buf before after spare : List UInt8)
    (trp : MqttTransport) (src : Supply) (hstate : trp.state = 2) (hbody : p.body = before ++ after)
    (hafter : after ≠ []) (hremLen : trp.remLen = after.length)
    (hlen : trp.len = (p.header.byte :: (base128 p.body.length ++ before)).length)
    (hbuf : buf = (p.header.byte :: (base128 p.body.length ++ before)) ++ spare)
    (hfits : p.kept.length ≤ buf.length) (hsound : src.Sound) (hbytes : src.bytes = after ++ more) :
    ReadOn p more src buf.length (readnbRest buf trp src) := by
  have hpos := List.length_pos_of_ne_nil hafter
  obtain ⟨bs,after',src',hget,rfl,hle,hbytes',hadvances⟩ := src.getfn_left after more trp.remLen
    hsound (by omega) hremLen.le hbytes
  rw [readnbRest, if_pos (by omega), hget]
  by_cases hbs : bs = []
  · subst hbs
    refine ⟨0, buf, trp, src', rfl, rfl, hadvances, Or.inl ⟨rfl, after', ?_, hbytes'⟩⟩
    exact .rest before after' spare hstate hbody hafter hremLen hlen hbuf
  · have hspare : bs.length ≤ spare.length := by
      have hkept := p.kept_length
      rw [hbody, List.length_append, List.length_append] at hkept
      rw [hbuf, List.length_append, List.length_cons, List.length_append, hbody] at hfits
      simp only [List.length_append] at hfits hkept
      omega
    have hwrite : writeAt buf trp.len bs = some ((p.header.byte :: (base128 p.body.length ++
        (before ++ bs))) ++ spare.drop bs.length) := by
      rw [hbuf, hlen, writeAt_behind _ _ _ hspare]
      simp only [List.cons_append, List.append_assoc]
    have hbufLen := writeAt_length _ _ _ _ hwrite
    obtain ⟨b,bs',rfl⟩ := List.exists_cons_of_ne_nil hbs
    simp only [hwrite, Option.bind_eq_bind, Option.bind_some, hremLen, List.length_append,
      Nat.add_sub_cancel_left]
    by_cases hdone : after' = []
    · subst hdone
      rw [List.append_nil] at hbody
      rw [← hbody]
      rw [if_neg (by simp)]
      refine ⟨_, _, _, src', readnbType_frame p _ _ _, ?_, hadvances,
        Or.inr ⟨rfl, List.prefix_append _ _, rfl, hbytes'⟩⟩
      rw [← hbody] at hbufLen
      exact hbufLen
    · have hne := List.length_pos_of_ne_nil hdone
      rw [if_pos (by omega)]
      refine ⟨0, _, _, src', rfl, hbufLen, hadvances, Or.inl ⟨rfl, after', ?_, hbytes'⟩⟩
      refine .rest (before ++ b :: bs') after' (spare.drop (b :: bs').length) hstate ?_ hdone rfl ?_ rfl
      · rw [hbody, List.append_assoc]
      · show trp.len+(b :: bs').length = _
        rw [hlen]
        simp only [List.length_cons, List.length_append]
        omega

/-- A call that starts, or gets to, in the length. -/
theorem readnbLength_readOn (p : WirePacket) (more buf digits spare : List UInt8) (buflen : ℤ)
    (trp : MqttTransport) (src : Supply) (hstate : trp.state = 1)
    (hcounting : trp.initialized.Counting digits p.body.length)
    (hbuf : buf = [p.header.byte] ++ spare) (hfits : (p.kept.length:ℤ) ≤ buflen)
    (hbuflen : buflen ≤ buf.length) (hsound : src.Sound)
    (hbytes : src.bytes = digits ++ (p.body ++ more)) :
    ReadOn p more src buf.length (readnbLength buf buflen trp src) := by
  have hlen : trp.initialized.len = trp.len := by
    unfold MqttTransport.initialized
    split_ifs <;> rfl
  have hstate' : trp.initialized.state = trp.state := by
    unfold MqttTransport.initialized
    split_ifs <;> rfl
  obtain ⟨rc,trp',src',hrun,hadvances,hstate'',hcases⟩ := packetDecodenbLoop_cases _ src digits
    (p.body ++ more) _ hcounting hsound hbytes
  have hdecode : packetDecodenb trp src = (rc,trp',src') := by
    rw [packetDecodenb, ← hlen]
    exact hrun
  rw [readnbLength, hdecode]
  obtain ⟨rfl,digits',hcounting',hbytes'⟩ | ⟨hpos,hremLen,hbytes'⟩ := hcases
  · refine ⟨0, buf, trp', src', rfl, rfl, hadvances, Or.inl ⟨rfl, digits' ++ p.body, ?_, ?_⟩⟩
    · refine .length digits' spare (hstate''.trans (hstate'.trans hstate)) ?_ hbuf
      rw [hcounting'.initialized]
      exact hcounting'
    · rw [hbytes', List.append_assoc]
  · have hkept := p.kept_length
    have hspare : (base128 p.body.length).length ≤ spare.length := by
      rw [hbuf, List.length_append, List.length_singleton] at hbuflen
      omega
    obtain ⟨mem,hmem⟩ : ∃ mem, mem = (p.header.byte :: base128 p.body.length) ++
      spare.drop (base128 p.body.length).length := ⟨_,rfl⟩
    have hput := packetEncode_behind p.header.byte spare p.body.length
    rw [if_pos hspare, ← hbuf, ← hmem] at hput
    have hmemLen : mem.length = buf.length := by
      rw [packetEncode_natCast] at hput
      exact (Cursor.put_mem_length _ _ _ hput).1
    have hrc : rc ≠ readError ∧ rc ≠ 0 := by
      unfold readError
      omega
    simp only [if_neg hrc.1, if_neg hrc.2, hremLen, hput,
      Option.bind_eq_bind, Option.bind_some]
    rw [if_neg (by push_cast; omega)]
    by_cases hbody : p.body = []
    · rw [readnbRest, if_neg (by simp [hbody])]
      have hfront : mem = p.kept ++ spare.drop (base128 p.body.length).length := by
        unfold WirePacket.kept frame
        rw [hmem, hbody, List.append_nil]
      subst hfront
      rw [readnbType_frame]
      exact ⟨_, _, _, src', rfl, hmemLen, hadvances, Or.inr ⟨rfl, List.prefix_append _ _, rfl,
        by rw [hbytes', hbody]; rfl⟩⟩
    · rw [← hmemLen]
      apply ReadOn.of_advances _ hadvances
      exact readnbRest_readOn p more mem [] p.body (spare.drop (base128 p.body.length).length) _ src'
        rfl rfl hbody rfl (by simp [Nat.add_comm]) (by rw [List.append_nil]; exact hmem) (by omega) hadvances.sound
        hbytes'

/-- A call anywhere in a packet that fits the buffer. -/
theorem packetReadnb_readOn (p : WirePacket) (more buf left : List UInt8) (buflen : ℤ)
    (trp : MqttTransport) (src : Supply) (h : Reading buf trp p left)
    (hfits : (p.kept.length:ℤ) ≤ buflen) (hbuflen : buflen ≤ buf.length) (hsound : src.Sound)
    (hbytes : src.bytes = left ++ more) :
    ReadOn p more src buf.length (packetReadnb buf buflen trp src) := by
  have hkept := p.kept_length
  unfold packetReadnb
  cases h with
  | header hstate =>
    obtain ⟨bs,left',src',hget,hsplit,hlen,hbytes',hadvances⟩ := src.getfn_left p.wire more 1 hsound
      Nat.one_pos (Nat.succ_le_succ (Nat.zero_le _)) hbytes
    rw [if_neg hstate.2, if_neg hstate.1, hget]
    match bs, hsplit, hlen with
    | [], hsplit, _ =>
      obtain rfl : left' = p.wire := hsplit.symm
      refine ⟨0, buf, { trp with state := 0 }, src', rfl, rfl, hadvances, Or.inl ⟨rfl, p.wire, ?_,
        hbytes'⟩⟩
      exact .header ⟨Nat.zero_ne_one, Nat.zero_ne_add_one 1⟩
    | [c], hsplit, _ =>
      obtain ⟨rfl,rfl⟩ := List.cons.inj hsplit
      have hwrite : writeAt buf 0 [p.header.byte] = some ([p.header.byte] ++ buf.drop 1) :=
        writeAt_behind [] buf [p.header.byte] (by rw [List.length_singleton]; omega)
      have hbufLen := writeAt_length _ _ _ _ hwrite
      simp only [hwrite, Option.bind_eq_bind, Option.bind_some]
      rw [← hbufLen]
      apply ReadOn.of_advances _ hadvances
      apply readnbLength_readOn p more _ p.digits (buf.drop 1) buflen _ src' rfl ?_ rfl hfits
        (by rw [hbufLen]; exact hbuflen) hadvances.sound (by rw [hbytes', List.append_assoc])
      refine ⟨rfl, p.body.length, p.counted, ?_⟩
      show 0+p.body.length*1 = _
      omega
  | length digits spare hstate hcounting hbuf =>
    rw [if_neg (by omega), if_pos hstate]
    exact readnbLength_readOn p more buf digits spare buflen trp src hstate hcounting hbuf hfits
      hbuflen hsound (by rw [hbytes, List.append_assoc])
  | rest before after spare hstate hbody hafter hremLen hlen hbuf =>
    rw [if_pos hstate]
    exact readnbRest_readOn p more buf before _ spare trp src hstate hbody hafter hremLen hlen hbuf
      (by omega) hsound hbytes

/-- The caller of `MQTTPacket_readnb`: its buffer and transport, the bytes on their way,
and what the calls returned other than "call again", with the buffer at that moment. -/
structure Receiver where
  buf : List UInt8
  trp : MqttTransport
  bytes : List UInt8
  results : List (ℤ × List UInt8)

/-- One call, during which `getfn` answers as told. -/
def Receiver.call (buflen : ℤ) (r : Receiver) (grants : List (Option ℕ)) : Option Receiver := do
  let (rc,buf,trp,src) ← packetReadnb r.buf buflen r.trp ⟨r.bytes,grants⟩
  return ⟨buf, trp, src.bytes, if rc = 0 then r.results else r.results ++ [(rc,buf)]⟩

/-- The packets that can be told from "call again". -/
def WirePacket.Typed (p : WirePacket) : Prop := p.header.type ≠ 0

instance (p : WirePacket) : Decidable p.Typed := inferInstanceAs (Decidable (_ ≠ _))

def WirePacket.Delivered (p : WirePacket) (result : ℤ × List UInt8) : Prop :=
  result.1 = p.header.type.toNat ∧ p.kept <+: result.2

/-- What is still to come of the packets that were not delivered yet. -/
def Receiver.Expects (r : Receiver) : List WirePacket → Prop
  | [] => r.bytes = [] ∧ r.trp.state ≠ 1 ∧ r.trp.state ≠ 2
  | p :: todo => ∃ left, Reading r.buf r.trp p left ∧ r.bytes = left ++ todo.flatMap WirePacket.wire

/-- The packets `ps` were sent from the beginning on. -/
structure Receiver.Inv (buflen : ℕ) (ps : List WirePacket) (r : Receiver) : Prop where
  bufLen : r.buf.length = buflen
  split : ∃ done todo, ps = done ++ todo ∧
    List.Forall₂ WirePacket.Delivered (done.filter WirePacket.Typed) r.results ∧ r.Expects todo

theorem Reading.left_ne_nil {buf : List UInt8} {trp : MqttTransport} {p : WirePacket}
    {left : List UInt8} (h : Reading buf trp p left) : left ≠ [] := by
  cases h with
  | header hstate => exact List.cons_ne_nil _ _
  | length digits spare hstate hcounting hbuf =>
    intro hnil
    obtain ⟨-,m,hm,-⟩ := hcounting
    rw [(List.append_eq_nil_iff.mp hnil).1] at hm
    cases h4 : 4-trp.initialized.len <;> simp [h4, readBase128] at hm
  | rest before after spare hstate hbody hafter => exact hafter

/-- The packets are delivered when no byte is left. -/
theorem Receiver.Expects.eq_nil {r : Receiver} {todo : List WirePacket} (h : r.Expects todo)
    (hbytes : r.bytes = []) : todo = [] := by
  cases todo with
  | nil => rfl
  | cons p todo =>
    obtain ⟨left,hreading,hsplit⟩ := h
    rw [hbytes] at hsplit
    exact absurd (List.append_eq_nil_iff.mp hsplit.symm).1 hreading.left_ne_nil

/-- A packet begins with a header. -/
theorem Receiver.expects_of_idle {r : Receiver} {todo : List WirePacket}
    (hstate : r.trp.state ≠ 1 ∧ r.trp.state ≠ 2) (hbytes : r.bytes = todo.flatMap WirePacket.wire) :
    r.Expects todo := by
  cases todo with
  | nil => exact ⟨hbytes,hstate⟩
  | cons p todo => exact ⟨p.wire, .header hstate, hbytes⟩

/-- One call. -/
theorem Receiver.Inv.call {buflen : ℤ} {n : ℕ} {ps : List WirePacket} {r : Receiver}
    (h : r.Inv n ps) (hbuflen : buflen ≤ n) (hfits : ∀ p ∈ ps, (p.kept.length:ℤ) ≤ buflen)
    (grants : List (Option ℕ)) (hgrants : ∀ g ∈ grants, g ≠ none) :
    ∃ r', r.call buflen grants = some r' ∧ r'.Inv n ps ∧ r'.bytes.length ≤ r.bytes.length ∧
      ((∃ g more, grants = some (g+1) :: more) → r.bytes ≠ [] →
        r'.bytes.length < r.bytes.length) := by
  obtain ⟨hlen,done,todo,rfl,hresults,hexpects⟩ := h
  cases todo with
  | nil =>
    obtain ⟨hbytes,hstate⟩ := hexpects
    obtain ⟨bs,src',hget,hsplit,-,-,-⟩ := Supply.getfn_eq ⟨r.bytes,grants⟩ 1 hgrants Nat.one_pos
    obtain ⟨rfl,hrest⟩ := List.append_eq_nil_iff.mp (hsplit.symm.trans hbytes)
    have hcall : r.call buflen grants = some ⟨r.buf, { r.trp with state := 0 }, [], r.results⟩ := by
      unfold Receiver.call packetReadnb
      rw [if_neg hstate.2, if_neg hstate.1, hget]
      simp only [Option.bind_eq_bind, Option.bind_some, if_true, hrest]
      rfl
    refine ⟨_, hcall, ⟨hlen, done, [], rfl, hresults, rfl, Nat.zero_ne_one, Nat.zero_ne_add_one 1⟩,
      Nat.zero_le _, ?_⟩
    intro _ hne
    exact absurd hbytes hne
  | cons p todo =>
    obtain ⟨left,hreading,hbytes⟩ := hexpects
    have hp := hfits p (List.mem_append_right _ List.mem_cons_self)
    obtain ⟨rc,buf,trp,src',hrun,hbuf,hadvances,hcases⟩ := packetReadnb_readOn p
      (todo.flatMap WirePacket.wire) r.buf left buflen r.trp ⟨r.bytes,grants⟩ hreading hp
      (by rw [hlen]; exact hbuflen) hgrants hbytes
    have hcall : r.call buflen grants = some ⟨buf, trp, src'.bytes,
        if rc = 0 then r.results else r.results ++ [(rc,buf)]⟩ := by
      unfold Receiver.call
      rw [hrun]
      rfl
    refine ⟨_, hcall, ⟨hbuf.trans hlen, ?_⟩, hadvances.le, fun hready _ => hadvances.lt hready⟩
    obtain ⟨rfl,left',hreading',hbytes'⟩ | ⟨hrc,hkept,hstate,hbytes'⟩ := hcases
    · exact ⟨done, p :: todo, rfl, hresults, left', hreading', hbytes'⟩
    · refine ⟨done ++ [p], todo, by rw [List.append_assoc]; rfl, ?_, Receiver.expects_of_idle
        (by rw [hstate]; decide) hbytes'⟩
      rw [List.filter_append]
      by_cases htyped : p.Typed
      · have hne : rc ≠ 0 := by
          rw [hrc]
          intro h0
          apply htyped
          apply BitVec.eq_of_toNat_eq
          exact_mod_cast h0
        rw [List.filter_cons_of_pos (by simpa using htyped), List.filter_nil]
        simp only [if_neg hne]
        exact List.rel_append hresults (.cons ⟨hrc,hkept⟩ .nil)
      · have hzero : rc = 0 := by
          have htype : p.header.type = 0 := not_not.mp htyped
          rw [hrc, htype]
          rfl
        rw [List.filter_cons_of_neg (by simpa using htyped), List.filter_nil, List.append_nil]
        simp only [if_pos hzero]
        exact hresults

/-- Every run of calls, with what it takes from the bytes on their way. -/
theorem Receiver.Inv.run {buflen : ℤ} {n : ℕ} {ps : List WirePacket} {r : Receiver}
    (h : r.Inv n ps) (hbuflen : buflen ≤ n) (hfits : ∀ p ∈ ps, (p.kept.length:ℤ) ≤ buflen)
    (calls : List (List (Option ℕ))) (hcalls : ∀ grants ∈ calls, ∀ g ∈ grants, g ≠ none) :
    ∃ r', StepRuns.run (Receiver.call buflen) r calls = some r' ∧ r'.Inv n ps ∧
      ((∀ grants ∈ calls, ∃ g more, grants = some (g+1) :: more) →
        r'.bytes.length ≤ r.bytes.length-calls.length) := by
  induction calls generalizing r with
  | nil => exact ⟨r, rfl, h, fun _ => le_rfl⟩
  | cons grants calls ih =>
    obtain ⟨hgrants,hcalls⟩ := List.forall_mem_cons.mp hcalls
    obtain ⟨r₁,hcall,hinv₁,hle,hlt⟩ := h.call hbuflen hfits grants hgrants
    obtain ⟨r',hrun,hinv',hleft⟩ := ih hinv₁ hcalls
    refine ⟨r', (StepRuns.run_cons_iff _ _ _ _ _).mpr ⟨r₁,hcall,hrun⟩, hinv', ?_⟩
    intro hready
    obtain ⟨hfirst,hready⟩ := List.forall_mem_cons.mp hready
    have hlater := hleft hready
    rw [List.length_cons]
    by_cases hnil : r.bytes = []
    · have hzero : r.bytes.length = 0 := by rw [hnil, List.length_nil]
      omega
    · have hone := hlt hfirst hnil
      omega

/-- Packets that all fit the buffer, and any division of their bytes over the calls: no
access leaves the buffer, no call fails, and the calls return the packets in order, each
whole in the buffer, up to one that has not come in full. Once every call has got a byte
and there were as many calls as bytes, all packets were returned. -/
theorem packets_received (ps : List WirePacket) (buflen : ℤ) (r : Receiver)
    (hfits : ∀ p ∈ ps, (p.kept.length:ℤ) ≤ buflen) (hbuflen : buflen ≤ r.buf.length)
    (hstate : r.trp.state ≠ 1 ∧ r.trp.state ≠ 2) (hbytes : r.bytes = ps.flatMap WirePacket.wire)
    (hresults : r.results = []) (calls : List (List (Option ℕ)))
    (hcalls : ∀ grants ∈ calls, ∀ g ∈ grants, g ≠ none) :
    ∃ r' done todo, run (Receiver.call buflen) r calls = some r' ∧ ps = done ++ todo ∧
      List.Forall₂ WirePacket.Delivered (done.filter WirePacket.Typed) r'.results ∧
      (r'.bytes = [] → todo = []) ∧
      ((∀ grants ∈ calls, ∃ g more, grants = some (g+1) :: more) →
        r.bytes.length ≤ calls.length → todo = []) := by
  have hinv : r.Inv r.buf.length ps := by
    refine ⟨rfl, [], ps, rfl, ?_, Receiver.expects_of_idle hstate hbytes⟩
    rw [hresults]
    exact .nil
  obtain ⟨r',hrun,⟨-,done,todo,hsplit,hdelivered,hexpects⟩,hleft⟩ :=
    hinv.run hbuflen hfits calls hcalls
  refine ⟨r', done, todo, hrun, hsplit, hdelivered, hexpects.eq_nil, ?_⟩
  intro hready hmany
  have hle := hleft hready
  apply hexpects.eq_nil
  apply List.eq_nil_of_length_eq_zero
  omega

/-- A PINGRESP whose length has two digits and a PUBLISH, at most two bytes at a time. -/
theorem packets_received_two :
    let ps : List WirePacket := [⟨headerOf .pingresp 0 0 0, [128,0], [], by decide⟩,
      ⟨headerOf .publish 0 0 0, [5], [0,1,97,104,105], by decide⟩]
    ∃ r', run (Receiver.call 7) ⟨List.replicate 7 0, ⟨0,0,0,0⟩, ps.flatMap WirePacket.wire, []⟩
        (List.replicate 10 [some 2]) = some r' ∧
      List.Forall₂ WirePacket.Delivered (ps.filter WirePacket.Typed) r'.results := by
  intro ps
  have hlen : ∀ p ∈ ps, (p.kept.length:ℤ) ≤ 7 := by
    intro p hp
    rcases List.mem_pair.mp hp with rfl | rfl
    · rw [WirePacket.kept_length, base128_of_lt _ (by decide)]
      decide
    · rw [WirePacket.kept_length, base128_of_lt _ (by decide)]
      decide
  obtain ⟨r',done,todo,hrun,hsplit,hdelivered,-,hall⟩ := packets_received ps 7
    ⟨List.replicate 7 0, ⟨0,0,0,0⟩, ps.flatMap WirePacket.wire, []⟩ hlen (by decide) (by decide) rfl rfl
    (List.replicate 10 [some 2]) (by decide)
  have htodo : todo = [] := by
    refine hall ?_ (by decide)
    intro grants hg
    rw [List.eq_of_mem_replicate hg]
    exact ⟨1, [], rfl⟩
  rw [htodo, List.append_nil] at hsplit
  rw [← hsplit] at hdelivered
  exact ⟨r', hrun, hdelivered⟩

end CppOperate.Mqtt
