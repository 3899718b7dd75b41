import CppOperate.ShmHandshake

/-! Interrupted waits. A `write_data` whose `sem_wait` was interrupted leaves its
acknowledgement behind, and the next call may take it for its own. -/
namespace CppOperate.Shm
open StepRuns CStrings

/-- `read_data` has returned the message of this call, while the call was open. -/
def Truthful (s : State) (r : Result) : Prop :=
  ∃ j shot m, r.since ≤ j ∧ j < r.upto ∧ s.returned[j]? = some shot ∧ shot.stamp = r.stamp ∧
    0 < r.stamp ∧ s.messages[r.stamp-1]? = some m ∧
    shot.data = m.bytes.take (min m.bytes.length 4095)

-- nothing was returned during the call
theorem not_truthful_of_none (s : State) (r : Result) (h : r.upto ≤ r.since) : ¬ Truthful s r := by
  intro ⟨j,_,_,hsince,hupto,_⟩
  omega

/-- A message is copied only when nothing is left of an earlier one: no token on
either semaphore, and the reader in `sem_wait` or gone. So no acknowledgement of
an earlier message can come, and the copy, here one step, cannot overlap a read
of the segment. -/
def NoStaleAck (s : State) (e : Event) : Prop :=
  e = .write → s.writer.copies →
    s.readSem = 0 ∧ s.writeSem = 0 ∧ (s.reader = .wait ∨ s.reader = .left)

instance (s : State) (e : Event) : Decidable (NoStaleAck s e) :=
  inferInstanceAs (Decidable (_ → _ → _))

/-- A string with its stamp: the message of that number as it was stored, an
earlier one than the message about to be copied. -/
def Known (s : State) (stamp : ℕ) (data : List UInt8) : Prop :=
  (stamp = 0 ∨ ∃ m, s.messages[stamp-1]? = some m ∧ data = Segment.stored m) ∧
    ∀ m, s.writer = .copy m → stamp < s.messages.length

/-- Every string in the segment, in the reader and returned by it has its stamp. -/
structure Stamped (s : State) : Prop where
  current : ∀ m, s.writer = .copy m → s.messages.getLast? = some m
  segment : Known s s.shmStamp (str s.shm.bytes)
  data : Known s s.dataStamp s.data
  returned : ∀ shot ∈ s.returned, Known s shot.stamp shot.data

theorem Known.call (s t : State) (m : CString) (stamp : ℕ) (data : List UInt8)
    (hknown : Known s stamp data) (hmessages : t.messages = s.messages ++ [m]) :
    Known t stamp data := by
  have hlen : t.messages.length = s.messages.length+1 := by
    rw [hmessages, List.length_append, List.length_singleton]
  rcases hknown.1 with rfl | ⟨k,hk,hdata⟩
  · exact ⟨Or.inl rfl, fun _ _ => by omega⟩
  · obtain ⟨hlt,-⟩ := List.getElem?_eq_some_iff.mp hk
    refine ⟨Or.inr ⟨k, ?_, hdata⟩, fun _ _ => by omega⟩
    rw [hmessages, List.getElem?_append_left hlt, hk]

/-- What is known stays known as long as no call begins. -/
theorem Known.mono (s t : State) (stamp : ℕ) (data : List UInt8) (hknown : Known s stamp data)
    (hmessages : t.messages = s.messages) (hcopy : ∀ m, t.writer = .copy m → s.writer = .copy m) :
    Known t stamp data := by
  refine ⟨hmessages ▸ hknown.1, fun m hm => ?_⟩
  rw [hmessages]
  exact hknown.2 m (hcopy m hm)

theorem init_stamped (shm : Segment) : Stamped { shm := shm } := by
  constructor <;> simp [Known]

/-- A step that does not begin a call, where every string was already known. -/
theorem Stamped.mono (s t : State) (hinv : Stamped s) (hmessages : t.messages = s.messages)
    (hcopy : ∀ m, t.writer = .copy m → s.writer = .copy m)
    (hsegment : Known s t.shmStamp (str t.shm.bytes)) (hdata : Known s t.dataStamp t.data)
    (hreturned : ∀ shot ∈ t.returned, Known s shot.stamp shot.data) : Stamped t := by
  refine ⟨?_, hsegment.mono s t _ _ hmessages hcopy, hdata.mono s t _ _ hmessages hcopy, ?_⟩
  · intro m hm
    rw [hmessages]
    exact hinv.current m (hcopy m hm)
  · intro shot hshot
    exact (hreturned shot hshot).mono s t _ _ hmessages hcopy

theorem Stamped.call (s t : State) (data : Option CString) (hinv : Stamped s)
    (h : s.call data = some t) : Stamped t := by
  obtain ⟨hidle,⟨m,-,rfl⟩ | rfl⟩ := call_cases s t data h
  · refine ⟨?_, hinv.segment.call s _ m _ _ rfl, hinv.data.call s _ m _ _ rfl, ?_⟩
    · intro k hk
      cases hk
      exact List.getLast?_concat
    · intro shot hshot
      exact (hinv.returned shot hshot).call s _ m _ _ rfl
  · exact hinv.mono s _ rfl (fun _ h => h) hinv.segment hinv.data hinv.returned

theorem Stamped.finish (s : State) (code : ℤ) (hinv : Stamped s) : Stamped (s.finish code) :=
  hinv.mono s _ rfl (fun _ h => by simp [State.finish] at h) hinv.segment hinv.data hinv.returned

theorem Stamped.writeNext (s t : State) (hinv : Stamped s) (h : s.writeNext = some t) :
    Stamped t := by
  rcases write_cases s t h with ⟨m,hwriter,rfl⟩ | ⟨hwriter,-,rfl⟩ | ⟨-,-,rfl⟩ | ⟨-,-,rfl⟩
  · have hlast := hinv.current m hwriter
    rw [List.getLast?_eq_getElem?] at hlast
    refine ⟨?_, ⟨Or.inr ⟨m, hlast, Segment.str_store _ _⟩, ?_⟩, ⟨hinv.data.1, ?_⟩, ?_⟩
    · intro k hk
      contradiction
    · intro k hk
      contradiction
    · intro k hk
      contradiction
    · intro shot hshot
      refine ⟨(hinv.returned shot hshot).1, ?_⟩
      intro k hk
      contradiction
  · exact hinv.mono s _ rfl (fun _ h => by simp at h) hinv.segment hinv.data hinv.returned
  · exact hinv.finish s (-1)
  · apply Stamped.finish
    exact hinv.mono s _ rfl (fun _ h => h) hinv.segment hinv.data hinv.returned

theorem Stamped.giveUp (s : State) (hinv : Stamped s) : Stamped s.giveUp := by
  refine hinv.mono s _ rfl (fun _ h => h) hinv.segment hinv.data ?_
  refine List.forall_mem_append.mpr ⟨hinv.returned, List.forall_mem_singleton.mpr ?_⟩
  refine ⟨Or.inl rfl, fun m hm => ?_⟩
  exact List.length_pos_of_mem (List.mem_of_getLast? (hinv.current m hm))

theorem Stamped.readNext (s t : State) (hinv : Stamped s) (h : s.readNext = some t) :
    Stamped t := by
  rcases read_cases s t h with ⟨-,-,-,rfl⟩ | ⟨-,-,rfl⟩ | ⟨-,rfl⟩ | ⟨-,rfl⟩
  · apply Stamped.giveUp
    exact hinv.mono s _ rfl (fun _ h => h) hinv.segment hinv.data hinv.returned
  · exact hinv.mono s _ rfl (fun _ h => h) hinv.segment hinv.data hinv.returned
  · exact hinv.mono s _ rfl (fun _ h => h) hinv.segment hinv.segment hinv.returned
  · refine hinv.mono s _ rfl (fun _ h => h) hinv.segment hinv.data ?_
    exact List.forall_mem_append.mpr ⟨hinv.returned, List.forall_mem_singleton.mpr hinv.data⟩

theorem Stamped.step (s : State) (e : Event) (t : State) (hinv : Stamped s)
    (h : step s e = some t) : Stamped t := by
  cases e with
  | call data => exact hinv.call s t data h
  | write => exact hinv.writeNext s t h
  | read => exact hinv.readNext s t h
  | interruptWrite =>
    obtain ⟨-,rfl⟩ := interruptWrite_cases s t h
    exact hinv.finish s (-1)
  | interruptRead =>
    obtain ⟨-,rfl⟩ := interruptRead_cases s t h
    exact hinv.giveUp s
  | signal =>
    cases h
    exact hinv.mono s _ rfl (fun _ h => h) hinv.segment hinv.data hinv.returned

/-- The call under way has copied its message. -/
def State.awaiting (s : State) : Prop := s.writer = .post ∨ s.writer = .wait

/-- `read_data` has returned the message of the call under way since the call. -/
def State.acknowledged (s : State) : Prop :=
  ∃ j shot, s.since ≤ j ∧ s.returned[j]? = some shot ∧ shot.stamp = s.messages.length

/-- An acknowledgement a waiting call can take is its own. -/
structure Truth (s : State) : Prop where
  stamped : Stamped s
  since_le : s.since ≤ s.returned.length
  copied : s.awaiting → s.shmStamp = s.messages.length ∧ 0 < s.messages.length
  ack : s.awaiting → 0 < s.readSem → s.acknowledged
  held : s.awaiting → s.reader = .post → s.dataStamp = s.messages.length
  results : ∀ r ∈ s.results, r.code = 0 → Truthful s r

theorem init_truth (shm : Segment) : Truth { shm := shm } := by
  refine ⟨init_stamped shm, ?_, ?_, ?_, ?_, ?_⟩ <;> simp [State.awaiting]

/-- What was returned and sent stays so. -/
theorem Truthful.mono (s t : State) (r : Result) (h : Truthful s r)
    (hreturned : s.returned <+: t.returned) (hmessages : s.messages <+: t.messages) :
    Truthful t r := by
  obtain ⟨j,shot,m,hsince,hupto,hshot,hstamp,hpos,hm,hdata⟩ := h
  obtain ⟨hlt,-⟩ := List.getElem?_eq_some_iff.mp hshot
  obtain ⟨hlt',-⟩ := List.getElem?_eq_some_iff.mp hm
  refine ⟨j, shot, m, hsince, hupto, ?_, hstamp, hpos, ?_, hdata⟩
  · calc
      t.returned[j]? = some s.returned[j] := List.prefix_iff_getElem?.mp hreturned j hlt
      _ = s.returned[j]? := (List.getElem?_eq_getElem hlt).symm
      _ = some shot := hshot
  · calc
      t.messages[r.stamp-1]? = some s.messages[r.stamp-1] :=
        List.prefix_iff_getElem?.mp hmessages _ hlt'
      _ = s.messages[r.stamp-1]? := (List.getElem?_eq_getElem hlt').symm
      _ = some m := hm

/-- Without a call that awaits its acknowledgement only the results count. -/
theorem Truth.of_not_awaiting (s : State) (hstamped : Stamped s)
    (hsince : s.since ≤ s.returned.length) (hnot : ¬ s.awaiting)
    (hresults : ∀ r ∈ s.results, r.code = 0 → Truthful s r) : Truth s :=
  ⟨hstamped, hsince, fun h => absurd h hnot, fun h => absurd h hnot, fun h => absurd h hnot, hresults⟩

/-- The reader's steps: it may return more strings, and its acknowledgements are
those of the call under way. -/
theorem Truth.of_read (s t : State) (hinv : Truth s) (hstamped : Stamped t)
    (hsame : t.writer = s.writer ∧ t.since = s.since ∧ t.shmStamp = s.shmStamp ∧
      t.messages = s.messages ∧ t.results = s.results)
    (hreturned : s.returned <+: t.returned)
    (hack : s.awaiting → 0 < t.readSem → s.acknowledged ∨ t.acknowledged)
    (hheld : s.awaiting → t.reader = .post → t.dataStamp = s.messages.length) : Truth t := by
  obtain ⟨hwriter,hsince,hshmStamp,hmessages,hresults⟩ := hsame
  have hawaiting : t.awaiting → s.awaiting := by
    rw [State.awaiting, hwriter]
    exact id
  refine ⟨hstamped, ?_, ?_, ?_, ?_, ?_⟩
  · rw [hsince]
    exact hinv.since_le.trans hreturned.length_le
  · intro h
    rw [hshmStamp, hmessages]
    exact hinv.copied (hawaiting h)
  · intro h hpos
    rcases hack (hawaiting h) hpos with ⟨j,shot,hj,hshot,hstamp⟩ | hnew
    · obtain ⟨hlt,-⟩ := List.getElem?_eq_some_iff.mp hshot
      have hkeep := List.prefix_iff_getElem?.mp hreturned j hlt
      refine ⟨j, shot, hsince ▸ hj, ?_, hmessages ▸ hstamp⟩
      rw [hkeep, ← hshot, List.getElem?_eq_getElem hlt]
    · exact hnew
  · intro h hpost
    rw [hmessages]
    exact hheld (hawaiting h) hpost
  · intro r hr hcode
    rw [hresults] at hr
    exact (hinv.results r hr hcode).mono s t r hreturned (hmessages ▸ List.prefix_rfl)

theorem Truth.call (s t : State) (data : Option CString) (hinv : Truth s)
    (h : s.call data = some t) : Truth t := by
  have hstamped := hinv.stamped.call s t data h
  obtain ⟨hidle,⟨m,-,rfl⟩ | rfl⟩ := call_cases s t data h
  · apply Truth.of_not_awaiting _ hstamped le_rfl (by simp [State.awaiting])
    intro r hr hcode
    exact (hinv.results r hr hcode).mono s _ r List.prefix_rfl (List.prefix_append _ _)
  · refine { hinv with stamped := hstamped, results := ?_ }
    intro r hr hcode
    rcases List.mem_append.mp hr with hold | hnew
    · exact hinv.results r hold hcode
    · rw [List.mem_singleton] at hnew
      rw [hnew] at hcode
      contradiction

/-- A call may fail at any time, and return 0 when its message was returned. -/
theorem Truth.finish (s : State) (code : ℤ) (hinv : Truth s)
    (hcode : code = 0 → 0 < s.messages.length ∧ s.acknowledged) : Truth (s.finish code) := by
  apply Truth.of_not_awaiting _ (hinv.stamped.finish s code) hinv.since_le
    (by simp [State.awaiting, State.finish])
  intro r hr hzero
  rcases List.mem_append.mp hr with hold | hnew
  · exact hinv.results r hold hzero
  rw [List.mem_singleton] at hnew
  subst hnew
  obtain ⟨hpos,j,shot,hj,hshot,hstamp⟩ := hcode hzero
  obtain ⟨hlt,-⟩ := List.getElem?_eq_some_iff.mp hshot
  rcases (hinv.stamped.returned shot (List.mem_of_getElem? hshot)).1 with hnone | ⟨m,hm,hdata⟩
  · omega
  · exact ⟨j, shot, m, hj, hlt, hshot, hstamp, hpos, hstamp ▸ hm, hdata⟩

theorem Truth.writeNext (s t : State) (hinv : Truth s) (hok : NoStaleAck s .write)
    (h : s.writeNext = some t) : Truth t := by
  have hstamped := hinv.stamped.writeNext s t h
  rcases write_cases s t h with ⟨m,hwriter,rfl⟩ | ⟨hwriter,-,rfl⟩ | ⟨-,-,rfl⟩ | ⟨hwriter,hack,rfl⟩
  · obtain ⟨hnone,-,hreader⟩ := hok rfl (by rw [hwriter, WritePc.copies])
    refine ⟨hstamped, hinv.since_le, ?_, ?_, ?_, hinv.results⟩
    · intro _
      exact ⟨rfl, List.length_pos_of_mem (List.mem_of_getLast? (hinv.stamped.current m hwriter))⟩
    · intro _ hpos
      exact absurd hnone (Nat.ne_of_gt hpos)
    · intro _ hpost
      rcases hreader with h | h <;> rw [h] at hpost <;> contradiction
  · have hawaiting : s.awaiting := Or.inl hwriter
    exact ⟨hstamped, hinv.since_le, fun _ => hinv.copied hawaiting, fun _ => hinv.ack hawaiting,
      fun _ => hinv.held hawaiting, hinv.results⟩
  · apply hinv.finish
    intro h
    contradiction
  · have hawaiting : s.awaiting := Or.inr hwriter
    apply Truth.finish
    · -- the token is taken, the rest of the call is as before
      exact ⟨hinv.stamped.mono s _ rfl (fun _ h => h) hinv.stamped.segment hinv.stamped.data
          hinv.stamped.returned, hinv.since_le, hinv.copied,
        fun _ _ => hinv.ack hawaiting hack, hinv.held, hinv.results⟩
    · intro _
      exact ⟨(hinv.copied hawaiting).2, hinv.ack hawaiting hack⟩

theorem Truth.giveUp (s : State) (hinv : Truth s) : Truth s.giveUp := by
  apply hinv.of_read s _ (hinv.stamped.giveUp s) ⟨rfl, rfl, rfl, rfl, rfl⟩ (List.prefix_append _ _)
  · intro h hpos
    exact Or.inl (hinv.ack h hpos)
  · intro _ hpost
    contradiction

theorem Truth.readNext (s t : State) (hinv : Truth s) (h : s.readNext = some t) : Truth t := by
  have hstamped := hinv.stamped.readNext s t h
  rcases read_cases s t h with ⟨-,-,-,rfl⟩ | ⟨-,-,rfl⟩ | ⟨-,rfl⟩ | ⟨hreader,rfl⟩
  · apply hinv.of_read s _ hstamped ⟨rfl, rfl, rfl, rfl, rfl⟩ (List.prefix_append _ _)
    · intro h hpos
      exact Or.inl (hinv.ack h hpos)
    · intro _ hpost
      contradiction
  · apply hinv.of_read s _ hstamped ⟨rfl, rfl, rfl, rfl, rfl⟩ List.prefix_rfl
    · intro h hpos
      exact Or.inl (hinv.ack h hpos)
    · intro _ hpost
      contradiction
  · apply hinv.of_read s _ hstamped ⟨rfl, rfl, rfl, rfl, rfl⟩ List.prefix_rfl
    · intro h hpos
      exact Or.inl (hinv.ack h hpos)
    · intro h _
      exact (hinv.copied h).1
  · apply hinv.of_read s _ hstamped ⟨rfl, rfl, rfl, rfl, rfl⟩ (List.prefix_append _ _)
    · -- the string just returned is the one the call waits for
      intro h _
      exact Or.inr ⟨s.returned.length, _, hinv.since_le, List.getElem?_concat_length,
        hinv.held h hreader⟩
    · intro _ hpost
      simp only at hpost
      split_ifs at hpost

theorem Truth.step (s : State) (e : Event) (t : State) (hinv : Truth s) (hok : NoStaleAck s e)
    (h : step s e = some t) : Truth t := by
  cases e with
  | call data => exact hinv.call s t data h
  | write => exact hinv.writeNext s t hok h
  | read => exact hinv.readNext s t h
  | interruptWrite =>
    obtain ⟨-,rfl⟩ := interruptWrite_cases s t h
    exact hinv.finish s (-1) (by simp)
  | interruptRead =>
    obtain ⟨-,rfl⟩ := interruptRead_cases s t h
    exact hinv.giveUp s
  | signal =>
    have hstamped := hinv.stamped.step s .signal t h
    cases h
    exact ⟨hstamped, hinv.since_le, hinv.copied, hinv.ack, hinv.held, hinv.results⟩

/-- In every run whose copies meet `NoStaleAck` a call returned 0 only when
`read_data` had returned its message since the call. -/
theorem write_data_truthful (shm : Segment) (events : List Event) (s : State)
    (hok : Meets step NoStaleAck { shm := shm } events)
    (hrun : run step { shm := shm } events = some s) :
    ∀ r ∈ s.results, r.code = 0 → Truthful s r :=
  (run_invariant_of_meets step NoStaleAck Truth Truth.step _ s events (init_truth shm) hok hrun).results

/-- A call that finds an acknowledgement on `read_sem` can return 0 without
having been read. -/
theorem waiting_ack_deceives (s : State) (m : CString) (hinv : Stamped s) (hwriter : s.writer = .copy m)
    (hack : 0 < s.readSem) (hroom : s.writeSem < semValueMax) :
    ∃ rest t, run step s rest = some t ∧ ∃ r ∈ t.results, r.code = 0 ∧ ¬ Truthful t r := by
  refine ⟨[.write, .write, .write], State.finish
    { s with shm := Segment.store s.shm m, shmStamp := s.messages.length,
             writeSem := s.writeSem+1, readSem := s.readSem-1, writer := .wait } 0,
    ?_, ⟨s.messages.length, s.since, s.returned.length, 0⟩, by simp [State.finish], rfl, ?_⟩
  · simp [run, Shm.step, State.writeNext, hwriter, hroom, hack]
  · -- every string returned so far belongs to an earlier message
    rintro ⟨j,shot,-,-,-,hshot,hstamp,-⟩
    exact absurd hstamp ((hinv.returned shot (List.mem_of_getElem? hshot)).2 m hwriter).ne

/-- From any state reached, a copy that finds an acknowledgement waiting or about
to be posted can go on to return 0 without having been read, as long as
`write_sem` can be posted. -/
theorem stale_ack_deceives (shm : Segment) (events : List Event) (s : State) (m : CString)
    (hrun : run step { shm := shm } events = some s) (hwriter : s.writer = .copy m)
    (hstale : 0 < s.readSem ∨ s.reader = .post) (hroom : s.writeSem < semValueMax) :
    ∃ rest t, run step s rest = some t ∧ ∃ r ∈ t.results, r.code = 0 ∧ ¬ Truthful t r := by
  have hinv : Stamped s := run_invariant step Stamped Stamped.step _ s events (init_stamped shm) hrun
  by_cases hack : 0 < s.readSem
  · exact waiting_ack_deceives s m hinv hwriter hack hroom
  have hreader : s.reader = .post := hstale.resolve_left hack
  -- the reader posts first
  obtain ⟨u,hu⟩ : ∃ u, step s .read = some u := ⟨_, by
    simp only [Shm.step, State.readNext, hreader]
    rfl⟩
  have hstamped := hinv.step s .read u hu
  have hpost := hu
  simp only [Shm.step, State.readNext, hreader, Option.some.injEq] at hpost
  subst hpost
  have hposted : 0 < if s.readSem < semValueMax then s.readSem+1 else s.readSem := by
    rw [semValueMax]
    split_ifs <;> omega
  obtain ⟨rest,t,hrest,hfalse⟩ := waiting_ack_deceives _ m hstamped hwriter hposted hroom
  exact ⟨.read :: rest, t, (run_cons_iff step s t _ rest).mpr ⟨_, hu, hrest⟩, hfalse⟩

-- "a" is read and acknowledged, the wait of the second call is interrupted
theorem write_data_truthful_second : ∃ s : State,
    run step { shm := Segment.cleared }
      [.call (some ⟨[97], by decide⟩), .write, .write, .read, .read, .read, .write,
        .call (some ⟨[98], by decide⟩), .write, .write, .interruptWrite] = some s ∧
    s.results = [⟨1, 0, 1, 0⟩, ⟨2, 1, 1, -1⟩] ∧ Truthful s ⟨1, 0, 1, 0⟩ := by
  obtain ⟨s,hrun⟩ : ∃ s : State, run step { shm := Segment.cleared }
      [.call (some ⟨[97], by decide⟩), .write, .write, .read, .read, .read, .write,
        .call (some ⟨[98], by decide⟩), .write, .write, .interruptWrite] = some s :=
    ⟨_, rfl⟩
  have htruthful := write_data_truthful Segment.cleared _ s (by decide +kernel) hrun
  have hresults : s.results = [⟨1, 0, 1, 0⟩, ⟨2, 1, 1, -1⟩] := by
    cases hrun
    rfl
  exact ⟨s, hrun, hresults, htruthful _ (by simp [hresults]) rfl⟩

/-- The acknowledgement of "a" comes after its call was interrupted, and the call
for "b" takes it. -/
theorem stale_ack_taken : ∃ s : State,
    run step { shm := Segment.cleared }
      [.call (some ⟨[97], by decide⟩), .write, .write, .interruptWrite, .read, .read, .read,
        .call (some ⟨[98], by decide⟩), .write, .write, .write] = some s ∧
    s.results = [⟨1, 0, 0, -1⟩, ⟨2, 1, 1, 0⟩] ∧ ¬ Truthful s ⟨2, 1, 1, 0⟩ := by
  exact ⟨_, rfl, rfl, not_truthful_of_none _ _ le_rfl⟩

end CppOperate.Shm
