import CppOperate.MqttAnswers
import CppOperate.StepRuns
import Mathlib

/-! Runs of the client: what any call may do to the list of acknowledgements, and so what
holds of it after any calls in any order. -/
namespace CppOperate.Mqtt
open ByteMemory CLoops CNumbers CStrings Ledgers StepRuns

/-- The ack handlers that `mqtt_ack_list_scan` leaves. -/
def Scan.keeps (scan : Scan) (a : AckHandlers) : Bool :=
  (!scan.expired a && scan.flag) || decide (Resent a.type)

theorem ackHandlerResend_ok {c : Client} {a : AckHandlers} {sends : Bool} {d : Client}
    {out : List Output} (h : ackHandlerResend c a sends = .ok (d,out)) :
    (∃ buf, d = c.withBuf buf) ∧ (sends = true → out = [.sent a.payload]) := by
  unfold ackHandlerResend at h
  obtain ⟨buf,hbuf,h⟩ := (bind_eq_ok_iff _ _ _).mp h
  obtain ⟨rfl,rfl⟩ := Prod.mk.inj (Except.ok.inj h)
  refine ⟨⟨buf,rfl⟩, fun hsends => ?_⟩
  obtain ⟨-,rfl⟩ := (writeAt_eq_some_iff _ _ _ _).mp ((inside_eq_ok_iff _ _).mp hbuf)
  rw [sentOf, if_pos hsends, List.take_zero, List.nil_append, Int.toNat_natCast, List.take_left]

theorem scanLoop_ok (scan : Scan) (as : List AckHandlers) {c d : Client} {rest : List AckHandlers}
    {out : List Output} (h : ackListScanLoop scan c as = .ok (rest,d,out)) :
    rest = as.filter scan.keeps ∧ d.ackHandlerList = c.ackHandlerList ∧
    d.ackHandlerNumber = c.ackHandlerNumber-(as.length-rest.length) ∧ d.packetId = c.packetId ∧
    ∀ a ∈ as, Resent a.type → scan.expired a = true → scan.resends a = true →
      .sent a.payload ∈ out := by
  induction as generalizing c rest out with
  | nil =>
    obtain ⟨rfl,heq⟩ := Prod.mk.inj (Except.ok.inj h)
    obtain ⟨rfl,rfl⟩ := Prod.mk.inj heq
    exact ⟨rfl, rfl, rfl, rfl, fun a ha => absurd ha List.not_mem_nil⟩
  | cons a as ih =>
    rw [ackListScanLoop] at h
    by_cases hwaits : scan.expired a = false ∧ scan.flag = true
    · rw [if_pos hwaits] at h
      obtain ⟨⟨rest',d',out'⟩,htail,h⟩ := (bind_eq_ok_iff _ _ _).mp h
      obtain ⟨rfl,heq⟩ := Prod.mk.inj (Except.ok.inj h)
      obtain ⟨rfl,rfl⟩ := Prod.mk.inj heq
      obtain ⟨hrest,hlist,hnumber,hid,hsent⟩ := ih htail
      have hkeep : scan.keeps a = true := by simp [Scan.keeps, hwaits.1, hwaits.2]
      refine ⟨?_, hlist, ?_, hid, ?_⟩
      · rw [List.filter_cons, if_pos hkeep, hrest]
      · rw [hnumber, List.length_cons, List.length_cons, Nat.add_sub_add_right]
      · intro b hb hresent hexpired hresends
        rcases List.mem_cons.mp hb with rfl | hb
        · exact absurd hexpired (by simp [hwaits.1])
        · exact hsent b hb hresent hexpired hresends
    · rw [if_neg hwaits] at h
      by_cases hresent : Resent a.type
      · rw [if_pos hresent] at h
        obtain ⟨⟨c',sent⟩,hresend,h⟩ := (bind_eq_ok_iff _ _ _).mp h
        obtain ⟨⟨rest',d',out'⟩,htail,h⟩ := (bind_eq_ok_iff _ _ _).mp h
        obtain ⟨rfl,heq⟩ := Prod.mk.inj (Except.ok.inj h)
        obtain ⟨rfl,rfl⟩ := Prod.mk.inj heq
        obtain ⟨⟨buf,rfl⟩,hone⟩ := ackHandlerResend_ok hresend
        obtain ⟨hrest,hlist,hnumber,hid,hsent⟩ := ih htail
        have hkeep : scan.keeps a = true := by simp [Scan.keeps, hresent]
        refine ⟨?_, hlist, ?_, hid, ?_⟩
        · rw [List.filter_cons, if_pos hkeep, hrest]
        · rw [hnumber, List.length_cons, List.length_cons, Nat.add_sub_add_right]
          rfl
        · intro b hb hresent' hexpired hresends
          rcases List.mem_cons.mp hb with rfl | hb
          · rw [hone hresends]
            exact List.mem_append_left _ List.mem_cons_self
          · exact List.mem_append_right _ (hsent b hb hresent' hexpired hresends)
      · rw [if_neg hresent] at h
        obtain ⟨c',hdestroy,h⟩ := (bind_eq_ok_iff _ _ _).mp h
        obtain ⟨hrest,hlist,hnumber,hid,hsent⟩ := ih h
        have hsame : c'.ackHandlerList = c.ackHandlerList ∧
            c'.ackHandlerNumber = c.ackHandlerNumber ∧ c'.packetId = c.packetId := by
          split_ifs at hdestroy
          · exact destroyHandlers_acts [a] hdestroy
          · obtain rfl := Except.ok.inj hdestroy
            exact ⟨rfl,rfl,rfl⟩
        have hdrop : ¬ scan.keeps a = true := by
          simp only [Scan.keeps, Bool.or_eq_true, Bool.and_eq_true, Bool.not_eq_true',
            decide_eq_true_iff]
          exact fun hor => hor.elim hwaits hresent
        refine ⟨?_, hlist.trans hsame.1, ?_, hid.trans hsame.2.2, ?_⟩
        · rw [List.filter_cons, if_neg hdrop, hrest]
        · have hle := List.length_filter_le scan.keeps as
          rw [← hrest] at hle
          change d.ackHandlerNumber = c'.ackHandlerNumber-1-_ at hnumber
          rw [hnumber, hsame.2.1, List.length_cons]
          omega
        · intro b hb hresent' hexpired hresends
          rcases List.mem_cons.mp hb with rfl | hb
          · exact absurd hresent' hresent
          · exact hsent b hb hresent' hexpired hresends

/-- How `mqtt_ack_list_scan` has gone. -/
theorem ackListScan_ok {c d : Client} {scan : Scan} {out : List Output}
    (h : ackListScan c scan = .ok (d,out)) :
    (d = c ∧ (c.ackHandlerList = [] ∨ c.clientState ≠ .connected)) ∨
    (c.clientState = .connected ∧ ∃ e, ackListScanLoop scan c c.ackHandlerList =
        .ok (c.ackHandlerList.filter scan.keeps, e, out) ∧
      d = { e with ackHandlerList := c.ackHandlerList.filter scan.keeps }) := by
  unfold ackListScan at h
  by_cases hskip : c.ackHandlerList = [] ∨ c.clientState ≠ .connected
  · rw [if_pos hskip] at h
    obtain ⟨rfl,-⟩ := Prod.mk.inj (Except.ok.inj h)
    exact .inl ⟨rfl,hskip⟩
  · rw [if_neg hskip] at h
    rw [not_or, not_not] at hskip
    obtain ⟨⟨rest,e,out'⟩,hloop,h⟩ := (bind_eq_ok_iff _ _ _).mp h
    obtain ⟨rfl,rfl⟩ := Prod.mk.inj (Except.ok.inj h)
    obtain rfl := (scanLoop_ok scan _ hloop).1
    exact .inr ⟨hskip.2, e, hloop, rfl⟩

section Acts
variable {legal : AckMove → Prop} {signed : Bool} {c : Client}

theorem ackListScan_acts {scan : Scan} {d : Client} {out : List Output}
    (hlegal : ∀ keep : AckHandlers → Bool, (∀ a, keep a = false → ¬ Resent a.type) →
      legal (.retain keep))
    (h : ackListScan c scan = .ok (d,out)) : Acts legal c d := by
  rcases ackListScan_ok h with ⟨rfl,-⟩ | ⟨-,e,hloop,rfl⟩
  · exact Acts.refl _ _
  · obtain ⟨-,hlist,hnumber,hid,-⟩ := scanLoop_ok scan _ hloop
    have hkeeps : legal (.retain scan.keeps) := by
      apply hlegal
      intro a hfalse hresent
      exact absurd hfalse (by simp [Scan.keeps, hresent])
    apply Acts.one _ hkeeps rfl
    intro hkept
    refine hkept.filter scan.keeps rfl ?_ hid
    change e.ackHandlerNumber = (c.ackHandlerList.filter scan.keeps).length
    have hle := List.length_filter_le scan.keeps c.ackHandlerList
    rw [hnumber, hkept.number]
    omega

theorem cleanSession_acts {d : Client} (hlegal : ∀ keep, legal (.retain keep))
    (h : cleanSession c = .ok d) : Acts legal c d := by
  unfold cleanSession at h
  obtain ⟨e,he,h⟩ := (bind_eq_ok_iff _ _ _).mp h
  obtain ⟨heap,-,h⟩ := (bind_eq_ok_iff _ _ _).mp h
  obtain rfl := Except.ok.inj h
  obtain ⟨-,-,hid⟩ := destroyHandlers_acts _ he
  have hnil : ([] : List AckHandlers) = c.ackHandlerList.filter fun _ => false := by simp
  apply Acts.one (.retain fun _ => false) (hlegal _) hnil
  intro hkept
  exact hkept.filter (fun _ => false) hnil rfl hid

theorem disconnect_acts {around : Around} {r : Returned} (h : mqttDisconnect c around = .ok r) :
    Acts legal c r.client := by
  unfold mqttDisconnect at h
  obtain ⟨⟨len,buf⟩,-,h⟩ := (bind_eq_ok_iff _ _ _).mp h
  dsimp only at h
  split_ifs at h <;> (obtain rfl := Except.ok.inj h; exact Acts.of_same rfl rfl rfl)

/-- A client that is not connected does nothing with the packets it reads. -/
theorem Switched.unconnected {around : Around} {received : Option (List UInt8)} {d : Client}
    {out : List Output} (hstate : c.clientState ≠ .connected)
    (h : Switched signed c around received d out) :
    ∃ buf n, d = { c with writeBuf := buf, pingOutstanding := n } := by
  have hnot : mqttIsConnected c ≠ mqttSuccessError := (mqttIsConnected_iff c).not.mpr hstate
  cases h with
  | idle => exact ⟨c.writeBuf, c.pingOutstanding, rfl⟩
  | pingresp => exact ⟨c.writeBuf, 0, rfl⟩
  | puback buf r htype hack =>
    unfold pubackAndPubcompPacketHandle at hack
    rw [if_pos hnot] at hack
    obtain rfl := Except.ok.inj hack
    exact ⟨c.writeBuf, c.pingOutstanding, rfl⟩
  | suback buf r htype hsub =>
    cases hsub with
    | refused => exact ⟨c.writeBuf, c.pingOutstanding, rfl⟩
    | unknown id hack => exact absurd hack.1 hstate
    | nack id p d hack => exact absurd hack.1 hstate
    | installed id p d rc hack => exact absurd hack.1 hstate
  | unsuback buf r htype hunsub =>
    cases hunsub with
    | refused => exact ⟨c.writeBuf, c.pingOutstanding, rfl⟩
    | noHandler id hack => exact absurd hack.1 hstate
    | destroyed id p d hack => exact absurd hack.1 hstate
  | publish buf r htype hpub =>
    cases hpub with
    | refused writeBuf => exact ⟨writeBuf, c.pingOutstanding, rfl⟩
    | passedOn p writeBuf len r hconn => exact absurd hconn hstate
  | pubrec buf r htype hanswer =>
    generalize r.client = e at hanswer ⊢
    cases hanswer with
    | refused => exact ⟨c.writeBuf, c.pingOutstanding, rfl⟩
    | answered type id d hack => exact absurd hack.1 hstate

theorem keepAlive_unconnected {around : Around} {s : Returned} (hstate : c.clientState ≠ .connected)
    (h : mqttKeepAlive c around = .ok s) : s = ⟨c, mqttIsConnected c, []⟩ := by
  unfold mqttKeepAlive at h
  rw [if_pos ((mqttIsConnected_iff c).not.mpr hstate)] at h
  exact (Except.ok.inj h).symm

theorem packetHandle_unconnected {around : Around} {received : Option (List UInt8)} {r : Returned}
    (hstate : c.clientState ≠ .connected) (h : packetHandle c around signed received = .ok r) :
    ∃ buf n, r.client = { c with writeBuf := buf, pingOutstanding := n } := by
  rcases packetHandle_ok h with rfl | ⟨d,out,s,hd,hs,hclient,-⟩
  · exact ⟨c.writeBuf, c.pingOutstanding, rfl⟩
  · obtain ⟨buf,n,rfl⟩ := hd.unconnected hstate
    have hstate' : Client.clientState { c with writeBuf := buf, pingOutstanding := n } ≠
        .connected := hstate
    rw [keepAlive_unconnected hstate' hs] at hclient
    exact ⟨buf, n, hclient⟩

theorem waitPacket_unconnected {packetType : ℕ} (received : List (Around × Option (List UInt8)))
    {c : Client} {rc : ℤ} {buf buf' : List UInt8} {r : Returned} (hstate : c.clientState ≠ .connected)
    (h : waitPacket signed packetType c rc buf received = .ok (r,buf')) :
    ∃ writeBuf n, r.client = { c with writeBuf := writeBuf, pingOutstanding := n } := by
  induction received generalizing c rc buf buf' r with
  | nil =>
    obtain ⟨rfl,-⟩ := Prod.mk.inj (Except.ok.inj h)
    exact ⟨c.writeBuf, c.pingOutstanding, rfl⟩
  | cons x rest ih =>
    obtain ⟨around,received⟩ := x
    rw [waitPacket] at h
    obtain ⟨s,hs,h⟩ := (bind_eq_ok_iff _ _ _).mp h
    obtain ⟨writeBuf,n,hsame⟩ := packetHandle_unconnected hstate hs
    dsimp only at h
    split_ifs at h
    · obtain ⟨⟨w,wbuf⟩,hw,h⟩ := (bind_eq_ok_iff _ _ _).mp h
      obtain ⟨rfl,-⟩ := Prod.mk.inj (Except.ok.inj h)
      have hstate' : s.client.clientState ≠ .connected := by
        rw [hsame]
        exact hstate
      obtain ⟨writeBuf',n',hrest⟩ := ih hstate' hw
      refine ⟨writeBuf', n', ?_⟩
      change w.client = _
      rw [hrest, hsame]
    · obtain ⟨rfl,-⟩ := Prod.mk.inj (Except.ok.inj h)
      exact ⟨writeBuf, n, hsame⟩

theorem connectExchange_ok {k : Connecting} {r : Returned} (hstate : c.clientState ≠ .connected)
    (h : connectExchange signed c k = .ok r) :
    ∃ writeBuf n, r.client = { c with writeBuf := writeBuf, pingOutstanding := n } := by
  unfold connectExchange at h
  obtain ⟨⟨len,buf⟩,-,h⟩ := (bind_eq_ok_iff _ _ _).mp h
  dsimp only at h
  by_cases hlen : len ≤ 0
  · rw [if_pos hlen] at h
    obtain rfl := Except.ok.inj h
    exact ⟨buf, c.pingOutstanding, rfl⟩
  · rw [if_neg hlen] at h
    by_cases hsends : k.sends = false
    · rw [if_pos hsends] at h
      obtain rfl := Except.ok.inj h
      exact ⟨buf, c.pingOutstanding, rfl⟩
    · rw [if_neg hsends] at h
      obtain ⟨⟨w,readBuf⟩,hw,h⟩ := (bind_eq_ok_iff _ _ _).mp h
      have hstate' : (c.withBuf buf).clientState ≠ .connected := hstate
      obtain ⟨writeBuf,n,hwait⟩ := waitPacket_unconnected _ hstate' hw
      dsimp only at h
      split_ifs at h
      · obtain ⟨⟨ok,connack⟩,-,h⟩ := (bind_eq_ok_iff _ _ _).mp h
        obtain rfl := Except.ok.inj h
        exact ⟨writeBuf, n, hwait⟩
      · obtain rfl := Except.ok.inj h
        exact ⟨writeBuf, n, hwait⟩

/-- How `mqtt_connect` leaves the client. -/
theorem connect_ok {k : Connecting} {r : Returned} (h : connectWithResults signed c k = .ok r) :
    ∃ writeBuf n state thread, r.client = { c with
      writeBuf := writeBuf, pingOutstanding := n, clientState := state, thread := thread } := by
  unfold connectWithResults at h
  by_cases hstate : c.clientState = .connected
  · rw [if_pos hstate] at h
    obtain rfl := Except.ok.inj h
    exact ⟨c.writeBuf, c.pingOutstanding, c.clientState, c.thread, rfl⟩
  · rw [if_neg hstate] at h
    by_cases hnetwork : k.networkRc ≠ mqttSuccessError
    · rw [if_pos hnetwork] at h
      obtain rfl := Except.ok.inj h
      exact ⟨c.writeBuf, c.pingOutstanding, c.clientState, c.thread, rfl⟩
    · rw [if_neg hnetwork] at h
      obtain ⟨s,hs,h⟩ := (bind_eq_ok_iff _ _ _).mp h
      obtain ⟨writeBuf,n,hsame⟩ := connectExchange_ok hstate hs
      split_ifs at h
      · obtain rfl := Except.ok.inj h
        exact ⟨writeBuf, 0, .connected, true, by rw [hsame]⟩
      · obtain rfl := Except.ok.inj h
        exact ⟨writeBuf, 0, c.clientState, c.thread, by rw [hsame]⟩
      · obtain rfl := Except.ok.inj h
        exact ⟨writeBuf, n, .initialized, c.thread, by rw [hsame]⟩

theorem connect_acts {k : Connecting} {r : Returned}
    (h : connectWithResults signed c k = .ok r) : Acts legal c r.client := by
  obtain ⟨writeBuf,n,state,thread,hr⟩ := connect_ok h
  rw [hr]
  exact Acts.of_same rfl rfl rfl

theorem tryResubscribeLoop_acts (hlegal : ∀ a, legal (.record a)) {around : ℕ → Around}
    (ps : List ℕ) {c : Client} {rc : ℤ} {r : Returned}
    (h : tryResubscribeLoop around c rc ps = .ok r) : Acts legal c r.client := by
  induction ps generalizing c rc r with
  | nil =>
    obtain rfl := Except.ok.inj h
    exact Acts.refl _ _
  | cons p ps ih =>
    rw [tryResubscribeLoop] at h
    cases hp : c.heap p with
    | none =>
      rw [hp] at h
      contradiction
    | some m =>
      rw [hp] at h
      obtain ⟨s,hs,h⟩ := (bind_eq_ok_iff _ _ _).mp h
      obtain ⟨t,ht,h⟩ := (bind_eq_ok_iff _ _ _).mp h
      obtain rfl := Except.ok.inj h
      have hrest := ih ht
      exact ((subscribe_ok hs).acts hlegal).trans hrest

theorem tryDoReconnect_acts (hlegal : ∀ a, legal (.record a))
    (hretain : ∀ keep : AckHandlers → Bool, (∀ a, keep a = false → ¬ Resent a.type) →
      legal (.retain keep))
    {k : Connecting} {around : ℕ → Around} {resends : AckHandlers → Bool} {r : Returned}
    (h : tryDoReconnect signed c k around resends = .ok r) : Acts legal c r.client := by
  unfold tryDoReconnect at h
  obtain ⟨s,hs,h⟩ := (bind_eq_ok_iff _ _ _).mp h
  have hconnect : Acts legal c s.client := by
    by_cases hstate : c.clientState ≠ .connected
    · rw [if_pos hstate] at hs
      exact connect_acts hs
    · rw [if_neg hstate] at hs
      obtain rfl := Except.ok.inj hs
      exact Acts.refl _ _
  by_cases hrc : s.rc = mqttSuccessError
  · rw [if_pos hrc] at h
    obtain ⟨t,ht,h⟩ := (bind_eq_ok_iff _ _ _).mp h
    obtain ⟨⟨d,out⟩,hscan,h⟩ := (bind_eq_ok_iff _ _ _).mp h
    obtain rfl := Except.ok.inj h
    have hresubscribe : Acts legal s.client t.client := by
      unfold tryResubscribe at ht
      split_ifs at ht
      · obtain rfl := Except.ok.inj ht
        exact Acts.refl _ _
      · exact tryResubscribeLoop_acts hlegal _ ht
    exact (hconnect.trans hresubscribe).trans (ackListScan_acts hretain hscan)
  · rw [if_neg hrc] at h
    obtain rfl := Except.ok.inj h
    exact hconnect

theorem map_ok {α β : Type} {x : Except ClientFault α} {f : α → β} {b : β}
    (h : x.map f = .ok b) : ∃ a, x = .ok a ∧ b = f a := by
  cases x with
  | error e => contradiction
  | ok a => exact ⟨a, rfl, (Except.ok.inj h).symm⟩

theorem ok_of_map {α β : Type} {x : Except ClientFault α} {f : α → β} {b : β}
    (h : x.toOption.map f = some b) : ∃ a, x = .ok a ∧ f a = b := by
  cases x with
  | error e => contradiction
  | ok a => exact ⟨a, rfl, Option.some.inj h⟩

/-- Every call does to the ledger only what it may. -/
theorem perform_acts {call : Call} {r : Returned} (h : perform signed c call = .ok r) :
    Acts (call.Legal signed c) c r.client := by
  have hrecord (a : AckHandlers) : call.Legal signed c (.record a) := trivial
  cases call with
  | connect k => exact connect_acts h
  | subscribe around topicFilter qos handler => exact (subscribe_ok h).acts hrecord
  | unsubscribe around topicFilter => exact (unsubscribe_ok h).acts hrecord
  | publish around topicFilter msg => exact publish_acts hrecord h
  | disconnect around => exact disconnect_acts h
  | packet around received =>
    apply packetHandle_acts hrecord _ h
    rintro buf k rfl hconn hack
    exact ⟨hconn, buf, rfl, hack⟩
  | scan expired resends =>
    obtain ⟨⟨d,out⟩,hscan,rfl⟩ := map_ok h
    exact ackListScan_acts (fun _ hkeep => hkeep) hscan
  | reconnect k around resends => exact tryDoReconnect_acts hrecord (fun _ hkeep => hkeep) h
  | cleanSession =>
    rw [perform] at h
    by_cases hstate : c.clientState = .cleanSession
    · rw [if_pos hstate] at h
      obtain ⟨d,hclean,rfl⟩ := map_ok h
      exact cleanSession_acts (fun _ _ _ => hstate) hclean
    · rw [if_neg hstate] at h
      obtain rfl := Except.ok.inj h
      exact Acts.refl _ _

theorem step_ok {call : Call} {d : Client} (h : step signed c call = some d) :
    ∃ r, perform signed c call = .ok r ∧ r.client = d := by
  unfold step at h
  cases hr : perform signed c call with
  | error e =>
    rw [hr] at h
    contradiction
  | ok r =>
    rw [hr] at h
    exact ⟨r, rfl, Option.some.inj h⟩

theorem step_acts {call : Call} {d : Client} (h : step signed c call = some d) :
    Acts (call.Legal signed c) c d := by
  obtain ⟨r,hr,rfl⟩ := step_ok h
  exact perform_acts hr

end Acts

theorem init_kept (writeBuf : List UInt8) (interceptorHandler : Option MessageHandler) :
    (Client.init writeBuf interceptorHandler).Kept :=
  ⟨List.nodup_nil, rfl, ⟨le_rfl, show (1 : UInt16).toNat ≤ mqttMaxPacketId.toNat by decide⟩, fun a ha => absurd ha List.not_mem_nil⟩

/-- The calls come in any order, one at a time, and a run ends at a call that would use a
dangling handler or leave a buffer. Whatever they meet, no two ack handlers are for the same
acknowledgement, the client counts them right, and its ids are in their range. -/
theorem kept_after_calls (signed : Bool) (writeBuf : List UInt8)
    (interceptorHandler : Option MessageHandler) (calls : List Call) (c : Client)
    (hrun : run (step signed) (Client.init writeBuf interceptorHandler) calls = some c) :
    c.Kept :=
  run_invariant (step signed) Client.Kept (fun _ _ _ hkept hstep => (step_acts hstep).kept hkept)
    _ c calls (init_kept _ _) hrun

/-- Everything a call needs is there, and no timer has expired. -/
def Around.calm : Around := ⟨true, true, false, true, true, 0⟩

/-- A connected client, with nothing to wait for. -/
def Client.online (writeBuf : List UInt8) : Client :=
  { Client.init writeBuf none with clientState := .connected, thread := true }

/-- A CONNECT that is answered with a CONNACK, a subscription, a message with QoS 2 from the
broker and one to it. -/
def someCalls : List Call :=
  [.connect ⟨0, optionsOf 4, true, [(.calm, some [32,2,0,0])], true⟩,
    .subscribe .calm stringA 1 none,
    .packet .calm (some [52,6,0,1,97,0,5,33,0]),
    .publish .calm stringA ⟨2, 0, 0, 0, 1, some [33]⟩]

/-- Three acknowledgements are waited for. -/
theorem kept_after_someCalls : ∃ c,
    run (step true) (Client.init (List.replicate 32 0) none) someCalls = some c ∧
    c.Kept ∧ c.ackHandlerNumber = 3 := by
  have hrun : (run (step true) (Client.init (List.replicate 32 0) none) someCalls).map
      (fun c => c.ackHandlerNumber) = some 3 := by decide +kernel
  obtain ⟨c,hc,hnumber⟩ := Option.map_eq_some_iff.mp hrun
  exact ⟨c, hc, kept_after_calls true _ none someCalls c hc, hnumber⟩

end CppOperate.Mqtt
