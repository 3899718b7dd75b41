import CppOperate.MqttNetwork
import Mathlib

/-! `mqtt_send_packet`, for whatever part of what it offers each `write` takes. -/
namespace CppOperate.Mqtt
open ByteMemory

/-- The loop of `mqtt_send_packet`: how much it counts as sent, and what went out. Each
element of `writes` is what a call of `write` may take at most, `none` an error; after
the last one the timer is expired. Every call offers `length` bytes, from `sent` on. -/
def sendLoop (writeBuf : List UInt8) (length : ℕ) :
    List (Option ℕ) → (sent : ℕ) → (wire : List UInt8) → Option (ℕ × List UInt8)
  | [], sent, wire => some (sent,wire)
  | w :: writes, sent, wire =>
    if sent < length then
      match w with
      | none => some (sent,wire)
      | some k =>
        let len := min k length
        if len = 0 then some (sent,wire)
        else (readAt writeBuf sent len).bind fun bs =>
          sendLoop writeBuf length writes (sent+len) (wire ++ bs)
    else some (sent,wire)

def sendPacket (writeBuf : List UInt8) (length : ℕ) (writes : List (Option ℕ)) :
    Option (ℤ × List UInt8) :=
  (sendLoop writeBuf length writes 0 []).map fun r =>
    (if r.1 = length then mqttSuccessError else mqttSendPacketError, r.2)

section Send
variable (writeBuf : List UInt8) (length : ℕ)

/-- What went out is the front of the buffer, as far as was counted. -/
theorem sendLoop_eq_take (writes : List (Option ℕ)) (sent sent' : ℕ) (wire' : List UInt8)
    (hsent : sent ≤ writeBuf.length)
    (h : sendLoop writeBuf length writes sent (writeBuf.take sent) = some (sent',wire')) :
    wire' = writeBuf.take sent' ∧ sent' ≤ writeBuf.length := by
  induction writes generalizing sent with
  | nil =>
    obtain ⟨rfl,rfl⟩ := Prod.mk.inj (Option.some.inj h)
    exact ⟨rfl,hsent⟩
  | cons w writes ih =>
    by_cases hlt : sent < length
    · cases w with
      | none =>
        rw [sendLoop, if_pos hlt] at h
        obtain ⟨rfl,rfl⟩ := Prod.mk.inj (Option.some.inj h)
        exact ⟨rfl,hsent⟩
      | some k =>
        rw [sendLoop, if_pos hlt] at h
        by_cases hzero : min k length = 0
        · simp only [if_pos hzero] at h
          obtain ⟨rfl,rfl⟩ := Prod.mk.inj (Option.some.inj h)
          exact ⟨rfl,hsent⟩
        · simp only [if_neg hzero] at h
          obtain ⟨bs,hbs,h⟩ := Option.bind_eq_some_iff.mp h
          obtain ⟨hle,rfl⟩ := (readAt_eq_some_iff _ _ _ _).mp hbs
          rw [← List.take_add] at h
          exact ih _ hle h
    · rw [sendLoop.eq_def] at h
      simp only [if_neg hlt] at h
      obtain ⟨rfl,rfl⟩ := Prod.mk.inj (Option.some.inj h)
      exact ⟨rfl,hsent⟩

/-- A call that returns success has sent the packet and nothing else, one that returns an
error has not. But what went out is a part of the packet for all outcomes of `write` only
if the packet has at most one byte: after a first byte the whole length is offered again. -/
theorem send_packet (hlen : length ≤ writeBuf.length) :
    (∀ writes rc wire, sendPacket writeBuf length writes = some (rc,wire) →
      (rc = mqttSuccessError ↔ wire = writeBuf.take length)) ∧
    ((∀ writes, ∃ rc wire, sendPacket writeBuf length writes = some (rc,wire) ∧
      wire <+: writeBuf.take length) ↔ length ≤ 1) := by
  constructor
  · intro writes rc wire h
    obtain ⟨⟨sent,wire'⟩,hloop,hrc⟩ := Option.map_eq_some_iff.mp h
    obtain ⟨rfl,rfl⟩ := Prod.mk.inj hrc
    obtain ⟨rfl,hsent⟩ := sendLoop_eq_take writeBuf length writes 0 sent wire' (Nat.zero_le _) hloop
    by_cases hdone : sent = length
    · rw [if_pos hdone, hdone]
      exact iff_of_true rfl rfl
    · rw [if_neg hdone]
      apply iff_of_false (by decide)
      intro heq
      apply hdone
      have hlengths := congrArg List.length heq
      rw [List.length_take, List.length_take] at hlengths
      omega
  · constructor
    · intro h
      by_contra hlong
      -- one byte goes out, then `length` bytes from the second one on are offered and taken
      obtain ⟨rc,wire,hsend,hpart⟩ := h [some 1, some length]
      have hfirst : min 1 length = 1 := by omega
      unfold sendPacket at hsend
      rw [sendLoop, if_pos (by omega)] at hsend
      simp only [hfirst, one_ne_zero, if_false] at hsend
      rw [(readAt_eq_some_iff _ _ _ _).mpr ⟨by omega, rfl⟩, Option.bind_some, sendLoop,
        if_pos (by omega)] at hsend
      simp only [min_self, if_neg (show length ≠ 0 by omega)] at hsend
      obtain ⟨⟨sent,wire'⟩,hloop,hrc⟩ := Option.map_eq_some_iff.mp hsend
      obtain ⟨bs,hbs,hloop⟩ := Option.bind_eq_some_iff.mp hloop
      obtain ⟨-,rfl⟩ := Prod.mk.inj (Option.some.inj hloop)
      obtain ⟨-,rfl⟩ := Prod.mk.inj hrc
      have hbsLen := readAt_length _ _ _ _ hbs
      have hle := hpart.length_le
      rw [List.length_append, List.length_append, hbsLen] at hle
      simp only [List.length_nil, List.length_take, List.drop_zero] at hle
      omega
    · intro hshort writes
      have hloop : ∃ sent, sent ≤ length ∧
          sendLoop writeBuf length writes 0 [] = some (sent, writeBuf.take sent) := by
        cases writes with
        | nil => exact ⟨0, Nat.zero_le _, rfl⟩
        | cons w writes =>
          by_cases hlt : 0 < length
          · obtain rfl : length = 1 := by omega
            cases w with
            | none => exact ⟨0, Nat.zero_le _, rfl⟩
            | some k =>
              rw [sendLoop, if_pos hlt]
              by_cases hzero : min k 1 = 0
              · simp only [if_pos hzero]
                exact ⟨0, Nat.zero_le _, rfl⟩
              · have hone : min k 1 = 1 := by omega
                simp only [hone, one_ne_zero, if_false]
                rw [(readAt_eq_some_iff _ _ _ _).mpr ⟨by omega, rfl⟩, Option.bind_some]
                refine ⟨1, le_rfl, ?_⟩
                cases writes with
                | nil => rfl
                | cons w' writes => exact if_neg (lt_irrefl 1)
          · rw [sendLoop.eq_def]
            exact ⟨0, Nat.zero_le _, if_neg hlt⟩
      obtain ⟨sent,hsent,hloop⟩ := hloop
      have hsend := congrArg (Option.map fun r =>
        (if r.1 = length then mqttSuccessError else mqttSendPacketError, r.2)) hloop
      exact ⟨_, _, hsend, List.take_prefix_take_left hsent⟩

/-- A PUBACK of four bytes. -/
theorem send_packet_puback : ¬ ∀ writes, ∃ rc wire,
    sendPacket [64,2,0,7,0,0,0,0] 4 writes = some (rc,wire) ∧
      wire <+: ([64,2,0,7,0,0,0,0] : List UInt8).take 4 := by
  rw [(send_packet [64,2,0,7,0,0,0,0] 4 (by decide)).2]
  decide

end Send

end CppOperate.Mqtt
