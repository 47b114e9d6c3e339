import Cordis.Host.Closing

/-!
# A graceful close converges

The threads of a session keep `Closing` too, so every step of a graceful close does. Once the child has
exited and the acknowledgement is stored, the supervisor and its transition close the session.
-/

namespace Cordis.Actors

open Protocol Session Machine Threads

/-! ## Steps of the threads -/

theorem role_ne_holder (pc : CallPc) (c : Nat) : pc.role ≠ .holder c := by
  cases pc with
  | refuse held fallback => cases held <;> exact nofun
  | _ => exact nofun

theorem stepCall_kept {s t : SessionInner} {n i : Nat} {op : Session.Operation} {b : Bool}
    {pc pc' : CallPc} {e : PendingEntry} (h : stepCall s n op b pc = some (t, pc'))
    (hid : pc.role.id? ≠ some i) (hmem : (i, e) ∈ s.pending) : (i, e) ∈ t.pending := by
  have hreplies := stepCall_replies h
  have heffect := (stepCall_effect h).1
  generalize hr : pc.role = r at heffect hid
  generalize hr' : pc'.role = r' at heffect
  cases heffect with
  | keep hsame => rwa [hsame.pending]
  | pass hsame => rwa [hsame.pending]
  | accept hsame => rwa [hsame.pending]
  | refuse hsame => rwa [hsame.pending]
  | answered hsame => rwa [hsame.pending]
  | allocate hp => rwa [hp]
  | register hsender hp =>
    rw [hp]
    refine List.mem_cons_of_mem _ (Tracked.mem_filter_ne.mpr ⟨hmem, ?_⟩)
    rintro rfl
    exact hid rfl
  | unregister hp =>
    rw [hp]
    refine Tracked.mem_filter_ne.mpr ⟨hmem, ?_⟩
    rintro rfl
    exact hid rfl
  | take => exact absurd hr' (role_ne_holder pc' _)
  | reply => exact absurd hr (role_ne_holder pc _)
  | drain x hp hsent =>
    rw [hreplies] at hsent
    have hnil := List.append_cancel_left ((List.append_nil _).trans hsent)
    rw [List.map_eq_nil_iff.mp hnil.symm] at hmem
    cases hmem

/-- What a step does to an entry that some call waits on. -/
inductive Kept (t : SessionInner) (i : Nat) (e : PendingEntry) (pc' : Pc) : Prop
  | kept : (i, e) ∈ t.pending → Kept t i e pc'
  | taken {message : Message} : pc' = .dispatch message (.judge e) → Kept t i e pc'
  | acked : t.shutdownAcked = true → Kept t i e pc'

theorem stepDispatch_kept {s t : SessionInner} {i : Nat} {message : Message} {pc pc' : DispatchPc}
    {e : PendingEntry} (htracked : Tracked s s.role) (hgoing : DispatchPc.Going pc)
    (h : stepDispatch s message pc = some (t, pc')) (hmem : (i, e) ∈ s.pending) :
    Kept t i e (.dispatch message pc') := by
  cases pc with
  | check =>
    simp only [stepDispatch] at h
    split_ifs at h <;> cases h <;> exact .kept hmem
  | remove =>
    simp only [stepDispatch] at h
    split at h
    · cases h
      exact .kept hmem
    · rename_i entry hentry
      cases h
      by_cases hi : i = message.id.toNat
      · subst hi
        rw [htracked.entry_of_key (mem_of_lookup hentry) hmem]
        exact .taken rfl
      · exact .kept (Tracked.mem_filter_ne.mpr ⟨hmem, hi⟩)
  | judge entry =>
    rw [stepDispatch] at h
    split at h
    · cases h
      exact .kept hmem
    · split at h
      · cases h
        exact .kept hmem
      · split at h <;> cases h <;> exact .kept hmem
  | failing error entry transition => exact hgoing.elim
  | acknowledge entry =>
    cases h
    exact .kept hmem
  | reply entry reply go =>
    cases h
    exact .kept hmem
  | done entry go => cases h

theorem stepCall_live {h : Host} (hinv : Closing h) {t : SessionInner} {n i : Nat} {b : Bool}
    {pc pc' : CallPc} {w : Bool} (hn : h.session.threads[n]? = some (.call .shutdown pc))
    (hrole : pc.role = .registered i w) (hmem : (i, ⟨n, .ShutdownAck⟩) ∈ h.session.pending)
    (hs : stepCall h.session n .shutdown b pc = some (t, pc')) :
    (∃ w', pc'.role = .registered i w') ∧ (i, ⟨n, .ShutdownAck⟩) ∈ t.pending ∨
      t.shutdownAcked = true := by
  have hbegun : CallPc.Begun pc → h.session.state = .Draining ∨ h.session.state = .Closed :=
    hinv.threads n _ hn
  cases pc with
  | recheck id =>
    cases hrole
    simp only [stepCall] at hs
    split_ifs at hs with hstate <;> cases hs
    · right
      exact hinv.acked (.inl ((hbegun trivial).resolve_left hstate))
    · exact .inl ⟨⟨true, rfl⟩, hmem⟩
  | enqueue id =>
    cases hrole
    simp only [stepCall, stepEnqueue] at hs
    split_ifs at hs with hreceiving hroom hinvoke hinvoke <;> cases hs
    · exact .inl ⟨⟨true, rfl⟩, hmem⟩
    · cases hinvoke
    · cases hinvoke
    · right
      exact hinv.acked (.inr (.inr (by simpa using hreceiving)))
  | await id =>
    cases hrole
    simp only [stepCall, stepAwait] at hs
    split at hs
    · rename_i reply hreply
      exact absurd (List.mem_map.mpr ⟨(n, reply), mem_of_lookup hreply, rfl⟩)
        (hinv.accounted.tracked.unanswered i _ hmem)
    · have hheld : ¬ h.session.senderLost n = true := by
        intro hlost
        unfold SessionInner.senderLost at hlost
        rw [Bool.and_eq_true, List.all_eq_true] at hlost
        have hbad := hlost.1 _ hmem
        simp at hbad
      rw [if_pos hheld] at hs
      cases hs
  | refuse held fallback => cases held <;> cases hrole
  | _ => cases hrole

/-- What a step of a transition to `Closed` does. -/
structure ClosingStep (s t : SessionInner) (pc pc' : TransitionPc) : Prop where
  sound : TransitionPc.Sound t pc'
  state : t.state = s.state ∨ t.state = .Closed
  acked : t.shutdownAcked = s.shutdownAcked
  force : t.force = s.force
  lock : t.terminalLock = true → TransitionPc.Locks pc' ∨ s.terminalLock = true ∧ ¬ TransitionPc.Locks pc

theorem stepTransition_closing {s t : SessionInner} {pc pc' : TransitionPc}
    (hsound : TransitionPc.Sound s pc) (hstate : s.state ≠ .Failed)
    (h : stepTransition s .closed pc = some (t, pc')) : ClosingStep s t pc pc' := by
  cases pc with
  | lock =>
    simp only [stepTransition] at h
    split_ifs at h
    cases h
    exact ⟨trivial, .inl rfl, rfl, rfl, fun _ => .inl trivial⟩
  | load =>
    simp only [stepTransition] at h
    split_ifs at h with hterminal <;> cases h
    · exact ⟨hterminal.resolve_right hstate, .inl rfl, rfl, rfl, by simp⟩
    · exact ⟨not_or.mp hterminal, .inl rfl, rfl, rfl, fun _ => .inl trivial⟩
  | exchange current =>
    simp only [stepTransition] at h
    split_ifs at h <;> cases h
    · exact ⟨rfl, .inr rfl, rfl, rfl, fun _ => .inl trivial⟩
    · exact ⟨trivial, .inl rfl, rfl, rfl, fun _ => .inl trivial⟩
  | record =>
    cases h
    exact ⟨hsound, .inl rfl, rfl, rfl, by simp⟩
  | drain =>
    cases h
    exact ⟨hsound, .inl rfl, rfl, rfl, fun hl => .inr ⟨hl, id⟩⟩
  | stop =>
    cases h
    exact ⟨hsound, .inl rfl, rfl, rfl, fun hl => .inr ⟨hl, id⟩⟩
  | force => exact hsound.elim
  | notify =>
    cases h
    exact ⟨hsound, .inl rfl, rfl, rfl, fun hl => .inr ⟨hl, id⟩⟩
  | done won => cases h

/-- After a step of thread `n`. -/
def Host.afterRun (h : Host) (t : SessionInner) (n : Nat) (pc' : Pc) : Host :=
  { h with session := { t with threads := h.session.threads.set n pc' } }

section Run

variable {h : Host} {n : Nat} {b : Bool} {pc pc' : Pc} {t : SessionInner}

theorem Live.run {id : Nat} (hinv : Closing h) (hn : h.session.threads[n]? = some pc)
    (hs : stepThread h.session n b pc = some (t, pc')) (hlive : Live h.session id) :
    Live (h.afterRun t n pc').session id ∨ t.shutdownAcked = true ∨
      ∃ message entry, pc' = .dispatch message (.judge entry) ∧ entry.expected = .ShutdownAck := by
  obtain ⟨m, w, cpc, hrole, hmem, hm⟩ := hlive
  have htracked := hinv.accounted.tracked
  have hroles : (h.afterRun t n pc').session.role = Function.update h.session.role n pc'.role :=
    role_set pc' hn rfl
  by_cases hmn : m = n
  · subst hmn
    rw [hn] at hm
    cases hm
    obtain ⟨⟨t', cpc'⟩, hcall, heq⟩ := Option.map_eq_some_iff.mp hs
    cases heq
    rw [role_of_get hn] at hrole
    rcases stepCall_live hinv hn hrole hmem hcall with ⟨⟨w', hrole'⟩, hmem'⟩ | hacked
    · refine .inl ⟨m, w', cpc', ?_, hmem', (get_set hn).mpr (.inl ⟨rfl, rfl⟩)⟩
      rw [hroles, Function.update_self]
      exact hrole'
    · exact .inr (.inl hacked)
  · -- another thread: it touches the entry only to take it out
    have hkept : Kept t id ⟨m, .ShutdownAck⟩ pc' := by
      cases pc with
      | call op cpc' =>
        obtain ⟨⟨t', cpc''⟩, hcall, heq⟩ := Option.map_eq_some_iff.mp hs
        cases heq
        refine .kept (stepCall_kept hcall ?_ hmem)
        intro hid
        have hid' : (h.session.role n).id? = some id := by
          rw [role_of_get hn]
          exact hid
        have hidm : (h.session.role m).id? = some id := by
          rw [hrole]
          rfl
        exact hmn (htracked.distinct m n id hidm hid')
      | dispatch message dpc =>
        obtain ⟨⟨t', dpc'⟩, hdispatch, heq⟩ := Option.map_eq_some_iff.mp hs
        cases heq
        exact stepDispatch_kept htracked (hinv.threads n _ hn).1 hdispatch hmem
      | terminate terminal tpc =>
        obtain ⟨⟨t', tpc'⟩, htransition, heq⟩ := Option.map_eq_some_iff.mp hs
        cases heq
        obtain ⟨⟨rfl, hacked⟩, hsound, -⟩ := hinv.threads n _ hn
        exact .acked ((stepTransition_closing hsound hinv.state htransition).acked.trans hacked)
      | negotiate limits npc =>
        obtain ⟨⟨t', npc'⟩, hnegotiate, heq⟩ := Option.map_eq_some_iff.mp hs
        cases heq
        apply Kept.kept
        rw [(stepNegotiate_effect hnegotiate).1.pending]
        exact hmem
    cases hkept with
    | kept hmem' =>
      refine .inl ⟨m, w, cpc, ?_, hmem', (get_set hn).mpr (.inr ⟨hmn, hm⟩)⟩
      rw [hroles, Function.update_of_ne hmn]
      exact hrole
    | taken hpc' => exact .inr (.inr ⟨_, _, hpc', rfl⟩)
    | acked hacked => exact .inr (.inl hacked)

theorem Closing.dispatching {message : Message} {dpc : DispatchPc} (hinv : Closing h)
    (hn : h.session.threads[n]? = some (.dispatch message dpc))
    (hs : stepThread h.session n b (.dispatch message dpc) = some (t, pc')) :
    h.reader = .dispatching n := by
  obtain ⟨-, hwho⟩ := hinv.threads n _ hn
  refine hwho.resolve_left fun hdone => ?_
  cases dpc with
  | done entry go => cases hs
  | _ => exact hdone rfl

theorem steady_or_closing (hinv : Closing h) (hn : h.session.threads[n]? = some pc)
    (hok : ∀ message dpc, pc = .dispatch message dpc → Accepted h.session message dpc)
    (hs : stepThread h.session n b pc = some (t, pc')) :
    Steady h.session t ∨ ∃ tpc tpc', pc = .terminate .closed tpc ∧ pc' = .terminate .closed tpc' ∧
      stepTransition h.session .closed tpc = some (t, tpc') := by
  cases pc with
  | call op cpc =>
    obtain ⟨⟨t', cpc'⟩, hcall, heq⟩ := Option.map_eq_some_iff.mp hs
    cases heq
    exact .inl (stepCall_steady hcall)
  | dispatch message dpc =>
    obtain ⟨⟨t', dpc'⟩, hdispatch, heq⟩ := Option.map_eq_some_iff.mp hs
    cases heq
    exact .inl (stepDispatch_accepted (hinv.threads n _ hn).1 (hok _ _ rfl) hdispatch).1
  | terminate terminal tpc =>
    obtain ⟨⟨t', tpc'⟩, htransition, heq⟩ := Option.map_eq_some_iff.mp hs
    cases heq
    obtain ⟨⟨rfl, -⟩, -⟩ := hinv.threads n _ hn
    exact .inr ⟨tpc, tpc', rfl, rfl, htransition⟩
  | negotiate limits npc =>
    obtain ⟨⟨t', npc'⟩, hnegotiate, heq⟩ := Option.map_eq_some_iff.mp hs
    cases heq
    exact .inl (stepNegotiate_steady hnegotiate)

theorem Answered.run (hinv : Closing h) (hn : h.session.threads[n]? = some pc)
    (hok : ∀ message dpc, pc = .dispatch message dpc → Accepted h.session message dpc)
    (hs : stepThread h.session n b pc = some (t, pc')) (hans : Answered h) :
    Answered (h.afterRun t n pc') := by
  have hmono : h.session.shutdownAcked = true → t.shutdownAcked = true := by
    rcases steady_or_closing hinv hn hok hs with hsteady | ⟨tpc, tpc', rfl, rfl, htransition⟩
    · exact hsteady.acked
    · obtain ⟨-, hsound, -⟩ := hinv.threads n _ hn
      intro hacked
      exact (stepTransition_closing hsound hinv.state htransition).acked.trans hacked
  -- a step that takes the entry of the live request is one of the response in hand
  have htaken : ∀ message entry, pc' = .dispatch message (.judge entry) →
      entry.expected = .ShutdownAck → Answered (h.afterRun t n pc') := by
    rintro message entry rfl hexpected
    cases pc with
    | dispatch message' dpc =>
      exact .inr (.taken (hinv.dispatching hn hs) ((get_set hn).mpr (.inl ⟨rfl, rfl⟩)) (.inl rfl)
        hexpected)
    | call op cpc =>
      obtain ⟨p, -, heq⟩ := Option.map_eq_some_iff.mp hs
      cases heq
    | terminate terminal tpc =>
      obtain ⟨p, -, heq⟩ := Option.map_eq_some_iff.mp hs
      cases heq
    | negotiate limits npc =>
      obtain ⟨p, -, heq⟩ := Option.map_eq_some_iff.mp hs
      cases heq
  have hlive : ∀ id, Live h.session id → (Live (h.afterRun t n pc').session id →
      Answered (h.afterRun t n pc')) → Answered (h.afterRun t n pc') := by
    intro id hold hnew
    rcases Live.run hinv hn hs hold with hlive | hacked | ⟨message, entry, hpc', hexpected⟩
    · exact hnew hlive
    · exact .inl hacked
    · exact htaken message entry hpc' hexpected
  rcases hans with hacked | hway
  · exact .inl (hmono hacked)
  · cases hway with
    | piped hmem hack hold => exact hlive _ hold fun hnew => .inr (.piped hmem hack hnew)
    | read hread hack hold => exact hlive _ hold fun hnew => .inr (.read hread hack hnew)
    | @fresh id m dpc hread hm hfresh hold =>
      by_cases hmn : m = n
      · subst hmn
        rw [hn] at hm
        cases hm
        obtain ⟨⟨t', dpc'⟩, hdispatch, heq⟩ := Option.map_eq_some_iff.mp hs
        cases heq
        cases dpc with
        | check =>
          simp only [stepDispatch] at hdispatch
          rw [if_neg (not_lt.mpr (hok _ _ rfl))] at hdispatch
          cases hdispatch
          exact hlive _ hold fun hnew =>
            .inr (.fresh hread ((get_set hn).mpr (.inl ⟨rfl, rfl⟩)) trivial hnew)
        | remove =>
          obtain ⟨c, w, cpc, -, hmem, -⟩ := hold
          simp only [stepDispatch] at hdispatch
          split at hdispatch
          · rename_i hnone
            have hbad := List.lookup_eq_none_iff.mp hnone _ hmem
            simp [Message.id] at hbad
          · rename_i entry hentry
            have hsame := hinv.accounted.tracked.entry_of_key (mem_of_lookup hentry) hmem
            cases hdispatch
            exact htaken _ _ rfl (by rw [hsame])
        | _ => exact hfresh.elim
      · exact hlive _ hold fun hnew =>
          .inr (.fresh hread ((get_set hn).mpr (.inr ⟨hmn, hm⟩)) hfresh hnew)
    | @taken m message dpc entry hread hm htook hexpected =>
      by_cases hmn : m = n
      · subst hmn
        rw [hn] at hm
        cases hm
        obtain ⟨⟨t', dpc'⟩, hdispatch, heq⟩ := Option.map_eq_some_iff.mp hs
        cases heq
        rcases htook with rfl | rfl
        · obtain ⟨haccepts, hremote⟩ := hok _ _ rfl
          simp only [stepDispatch, haccepts, hremote] at hdispatch
          rw [if_neg (by simp), if_pos hexpected] at hdispatch
          cases hdispatch
          exact .inr (.taken hread ((get_set hn).mpr (.inl ⟨rfl, rfl⟩)) (.inr rfl) hexpected)
        · cases hdispatch
          exact .inl rfl
      · exact .inr (.taken hread ((get_set hn).mpr (.inr ⟨hmn, hm⟩)) htook hexpected)

theorem begun_step {s : SessionInner} {cpc cpc' : CallPc}
    (h : stepCall s n .shutdown b cpc = some (t, cpc')) (hbegun : CallPc.Begun cpc') :
    CallPc.Begun cpc ∨ t.state = .Draining := by
  cases cpc with
  | begin =>
    simp only [stepCall, stepBegin] at h
    split_ifs at h <;> cases h
    · exact .inr rfl
    · exact hbegun.elim
  | refuse held fallback =>
    simp only [stepCall] at h
    split_ifs at h
    cases h
    cases held with
    | nothing => exact hbegun.elim
    | permit => exact .inl trivial
    | registration id guarded => exact .inl trivial
  | ended result => cases h
  | _ => exact .inl trivial

theorem Calm.run (hinv : Closing h) (hn : h.session.threads[n]? = some pc)
    (hok : ∀ message dpc, pc = .dispatch message dpc → Accepted h.session message dpc)
    (hs : stepThread h.session n b pc = some (t, pc')) : Calm (h.afterRun t n pc') n pc' := by
  have hcalm := hinv.threads n _ hn
  cases pc with
  | call op cpc =>
    obtain ⟨⟨t', cpc'⟩, hcall, heq⟩ := Option.map_eq_some_iff.mp hs
    cases heq
    cases op with
    | shutdown =>
      intro hbegun
      rcases begun_step hcall hbegun with hold | hstate
      · exact (stepCall_steady hcall).leaving (hcalm hold)
      · exact .inl hstate
    | _ => trivial
  | dispatch message dpc =>
    have hread := hinv.dispatching hn hs
    obtain ⟨⟨t', dpc'⟩, hdispatch, heq⟩ := Option.map_eq_some_iff.mp hs
    cases heq
    exact ⟨(stepDispatch_accepted hcalm.1 (hok _ _ rfl) hdispatch).2, .inr hread⟩
  | terminate terminal tpc =>
    obtain ⟨⟨rfl, hacked⟩, hsound, hwho⟩ := hcalm
    obtain ⟨⟨t', tpc'⟩, htransition, heq⟩ := Option.map_eq_some_iff.mp hs
    cases heq
    have hstep := stepTransition_closing hsound hinv.state htransition
    refine ⟨⟨rfl, hstep.acked.trans hacked⟩, hstep.sound, .inr (hwho.resolve_left fun hdone => ?_)⟩
    cases tpc with
    | done won => cases htransition
    | _ => exact hdone rfl
  | negotiate limits npc =>
    obtain ⟨⟨t', npc'⟩, -, heq⟩ := Option.map_eq_some_iff.mp hs
    cases heq
    trivial

theorem SupervisorCalm.run (hinv : Closing h) (hn : h.session.threads[n]? = some pc)
    (hclosed : h.session.state = .Closed → t.state = .Closed)
    (hkind : ∀ tpc, pc = .terminate .closed tpc → ∃ tpc', pc' = .terminate .closed tpc') :
    SupervisorCalm (h.afterRun t n pc') := by
  have hsup := hinv.supervisor
  unfold SupervisorCalm at hsup ⊢
  unfold Host.afterRun
  cases hv : h.supervisor with
  | transition m =>
    simp only [hv] at hsup ⊢
    obtain ⟨tpc, hm⟩ := hsup
    by_cases hmn : m = n
    · subst hmn
      rw [hn] at hm
      obtain ⟨tpc', hpc'⟩ := hkind tpc (Option.some.inj hm)
      exact ⟨tpc', (get_set hn).mpr (.inl ⟨rfl, hpc'.symm⟩)⟩
    · exact ⟨tpc, (get_set hn).mpr (.inr ⟨hmn, hm⟩)⟩
  | wait => trivial
  | exited success => simpa only [hv] using hsup
  | kill => simp only [hv] at hsup
  | killed reaped => simp only [hv] at hsup
  | _ =>
    simp only [hv] at hsup
    exact hclosed hsup

theorem ReaderCalm.run (hinv : Closing h) (hn : h.session.threads[n]? = some pc)
    (hacked : h.session.shutdownAcked = true → t.shutdownAcked = true)
    (hkind : ∀ message dpc, pc = .dispatch message dpc → ∃ dpc', pc' = .dispatch message dpc') :
    ReaderCalm (h.afterRun t n pc') := by
  have hreader := hinv.reader
  unfold ReaderCalm at hreader ⊢
  unfold Host.afterRun
  cases hr : h.reader with
  | dispatching m =>
    simp only [hr] at hreader ⊢
    obtain ⟨message, dpc, hm⟩ := hreader
    by_cases hmn : m = n
    · subst hmn
      rw [hn] at hm
      obtain ⟨dpc', hpc'⟩ := hkind message dpc (Option.some.inj hm)
      exact ⟨message, dpc', (get_set hn).mpr (.inl ⟨rfl, hpc'.symm⟩)⟩
    · exact ⟨message, dpc, (get_set hn).mpr (.inr ⟨hmn, hm⟩)⟩
  | readFailed error =>
    simp only [hr] at hreader
    exact hacked hreader
  | readFailedOpen error =>
    simp only [hr] at hreader
    exact hacked hreader
  | failing m => simp only [hr] at hreader
  | _ => trivial

theorem stepThread_kind (hs : stepThread h.session n b pc = some (t, pc')) :
    (∀ message dpc, pc = .dispatch message dpc → ∃ dpc', pc' = .dispatch message dpc') ∧
      ∀ tpc, pc = .terminate .closed tpc → ∃ tpc', pc' = .terminate .closed tpc' := by
  constructor
  · rintro message dpc rfl
    obtain ⟨⟨t', dpc'⟩, -, heq⟩ := Option.map_eq_some_iff.mp hs
    cases heq
    exact ⟨dpc', rfl⟩
  · rintro tpc rfl
    obtain ⟨⟨t', tpc'⟩, -, heq⟩ := Option.map_eq_some_iff.mp hs
    cases heq
    exact ⟨tpc', rfl⟩

theorem Closing.run_steady (hinv : Closing h) (hn : h.session.threads[n]? = some pc)
    (hok : ∀ message dpc, pc = .dispatch message dpc → Accepted h.session message dpc)
    (hs : stepThread h.session n b pc = some (t, pc')) (hsteady : Steady h.session t)
    (hother : ∀ terminal tpc, pc ≠ .terminate terminal tpc) : Closing (h.afterRun t n pc') where
  accounted := by
    obtain ⟨heffect, hsettles⟩ := stepThread_effect hs
    exact hinv.accounted.run hn heffect hsettles
  threads m p hm := by
    rcases (get_set hn).mp hm with ⟨rfl, rfl⟩ | ⟨-, hold⟩
    · exact Calm.run hinv hn hok hs
    · exact (hinv.threads m p hold).mono hsteady.leaving hsteady.closed hsteady.acked .inr .inr
  state := hsteady.not_failed hinv.state
  force := hsteady.force.trans hinv.force
  acked hor := by
    apply hsteady.acked
    have hstop : h.session.actorStop = true ∨ h.session.receiving = false →
        h.session.shutdownAcked = true := fun hor => hinv.acked (.inr hor)
    rcases hor with hclosed | hactor | hreceiving
    · exact hinv.acked (.inl (hsteady.was_closed hclosed))
    · exact hstop (.inl (hsteady.actorStop.symm.trans hactor))
    · exact hstop (.inr (hsteady.receiving.symm.trans hreceiving))
  lock hl := by
    obtain ⟨m, terminal, tpc, hm, hlocks⟩ := hinv.lock (hsteady.terminalLock.symm.trans hl)
    refine ⟨m, terminal, tpc, (get_set hn).mpr (.inr ⟨?_, hm⟩), hlocks⟩
    rintro rfl
    rw [hn] at hm
    exact hother _ _ (Option.some.inj hm)
  reader := .run hinv hn hsteady.acked (stepThread_kind hs).1
  writer := hinv.writer
  supervisor := .run hinv hn hsteady.closed (stepThread_kind hs).2
  exit := hinv.exit
  output hend := .run hinv hn hok hs (hinv.output hend)

theorem Closing.run_closing {tpc tpc' : TransitionPc} (hinv : Closing h)
    (hn : h.session.threads[n]? = some (.terminate .closed tpc))
    (htransition : stepTransition h.session .closed tpc = some (t, tpc')) :
    Closing (h.afterRun t n (.terminate .closed tpc')) := by
  have hs : stepThread h.session n false (.terminate .closed tpc) =
      some (t, .terminate .closed tpc') := by
    rw [stepThread, htransition]
    rfl
  have hok : ∀ message dpc, Pc.terminate .closed tpc = .dispatch message dpc →
      Accepted h.session message dpc := by
    intro message dpc heq
    cases heq
  obtain ⟨⟨-, hacked⟩, hsound, -⟩ := hinv.threads n _ hn
  have hstep := stepTransition_closing hsound hinv.state htransition
  have hacked' : t.shutdownAcked = true := hstep.acked.trans hacked
  have hclosed : h.session.state = .Closed → t.state = .Closed := fun hold =>
    hstep.state.elim (fun hsame => hsame.trans hold) id
  constructor
  · obtain ⟨heffect, hsettles⟩ := stepThread_effect hs
    exact hinv.accounted.run hn heffect hsettles
  · intro m p hm
    rcases (get_set hn).mp hm with ⟨rfl, rfl⟩ | ⟨-, hold⟩
    · exact Calm.run hinv hn hok hs
    · refine (hinv.threads m p hold).mono (fun hleaving => ?_) hclosed (fun _ => hacked') .inr .inr
      rcases hstep.state with hsame | hnow
      · exact hleaving.imp hsame.trans hsame.trans
      · exact .inr hnow
  · rcases hstep.state with hsame | hnow
    · exact fun hbad => hinv.state (hsame.symm.trans hbad)
    · show t.state ≠ .Failed
      rw [hnow]
      exact nofun
  · exact hstep.force.trans hinv.force
  · exact fun _ => hacked'
  · intro hl
    rcases hstep.lock hl with hlocks | ⟨hold, hfree⟩
    · exact ⟨n, .closed, tpc', (get_set hn).mpr (.inl ⟨rfl, rfl⟩), hlocks⟩
    · obtain ⟨m, terminal, mpc, hm, hlocks⟩ := hinv.lock hold
      refine ⟨m, terminal, mpc, (get_set hn).mpr (.inr ⟨?_, hm⟩), hlocks⟩
      rintro rfl
      rw [hn] at hm
      cases hm
      exact hfree hlocks
  · exact .run hinv hn (fun _ => hacked') (stepThread_kind hs).1
  · exact hinv.writer
  · exact .run hinv hn hclosed (stepThread_kind hs).2
  · exact hinv.exit
  · exact fun _ => .inl hacked'

end Run

theorem Closing.drop_step {h h' : Host} {n : Nat} (hinv : Closing h)
    (hok : ∀ pc, h.session.threads[n]? ≠ some (.call .shutdown pc))
    (hs : onSession h (.drop n) = some h') : Closing h' := by
  obtain ⟨s', hdrop, rfl⟩ := Option.map_eq_some_iff.mp hs
  have haccounted := accounted_step hinv.accounted hdrop
  obtain ⟨pc, hn, hdrop⟩ := Option.bind_eq_some_iff.mp hdrop
  obtain ⟨pc', hthread, hdrop⟩ := Option.bind_eq_some_iff.mp hdrop
  cases hdrop
  cases pc with
  | dispatch message dpc => cases hthread
  | terminate terminal tpc => cases hthread
  | negotiate limits npc => cases hthread
  | call op cpc =>
    obtain ⟨cpc', hcall, rfl⟩ := Option.map_eq_some_iff.mp hthread
    have hother : ∀ (m : Nat) (p : Pc), h.session.threads[m]? = some p → (∀ pc, p ≠ .call op pc) →
        (h.session.threads.set n (.call op cpc'))[m]? = some p := by
      intro m p hm hp
      refine (get_set hn).mpr (.inr ⟨?_, hm⟩)
      rintro rfl
      rw [hn] at hm
      exact hp _ (Option.some.inj hm).symm
    have hop : op ≠ .shutdown := by
      rintro rfl
      exact hok _ hn
    constructor
    · exact haccounted
    · intro m p hm
      rcases (get_set hn).mp hm with ⟨rfl, rfl⟩ | ⟨-, hold⟩
      · cases op with
        | shutdown => exact absurd rfl hop
        | _ => trivial
      · exact (hinv.threads m p hold).mono id id id .inr .inr
    · exact hinv.state
    · exact hinv.force
    · exact hinv.acked
    · intro hl
      obtain ⟨m, terminal, tpc, hm, hlocks⟩ := hinv.lock hl
      exact ⟨m, terminal, tpc, hother m _ hm (by simp), hlocks⟩
    · refine ReaderCalm.run (t := h.session) hinv hn id ?_
      intro message dpc heq
      cases heq
    · exact hinv.writer
    · refine SupervisorCalm.run (t := h.session) hinv hn id ?_
      intro tpc heq
      cases heq
    · exact hinv.exit
    · intro hend
      have hlive : ∀ id, Live h.session id →
          Live { h.session with threads := h.session.threads.set n (.call op cpc') } id := by
        rintro id ⟨m, w, pc, hrole, hmem, hm⟩
        have hmn : m ≠ n := by
          rintro rfl
          exact hok _ hm
        refine ⟨m, w, pc, ?_, hmem, (get_set hn).mpr (.inr ⟨hmn, hm⟩)⟩
        rw [role_set (.call op cpc') hn rfl, Function.update_of_ne hmn]
        exact hrole
      rcases hinv.output hend with hacked | hway
      · exact .inl hacked
      · cases hway with
        | piped hmem hack hold => exact .inr (.piped hmem hack (hlive _ hold))
        | read hread hack hold => exact .inr (.read hread hack (hlive _ hold))
        | fresh hread hm hfresh hold =>
          exact .inr (.fresh hread (hother _ _ hm (by simp)) hfresh (hlive _ hold))
        | taken hread hm htook hexpected =>
          exact .inr (.taken hread (hother _ _ hm (by simp)) htook hexpected)

theorem closing_new (config : ProcessHostConfig) : Closing (Host.new config) where
  accounted := accounted_new config
  threads n pc hn := by
    rw [show (Host.new config).session.threads = [] from rfl, List.getElem?_nil] at hn
    cases hn
  state hbad := by cases hbad
  force := rfl
  acked hor := by rcases hor with hbad | hbad | hbad <;> cases hbad
  lock hl := by cases hl
  reader := trivial
  writer n hn := by cases hn
  supervisor := trivial
  exit hbad := by cases hbad
  output hend := absurd rfl hend

/-- Every step of a graceful close keeps the invariant. -/
theorem closing_step {h h' : Host} {l : Label} (hinv : Closing h) (hok : Graceful h l)
    (hs : step h l = some h') : Closing h' := by
  cases l with
  | call op =>
    cases hs
    exact hinv.spawn rfl fun n h' => by
      cases op with
      | shutdown => exact nofun
      | _ => trivial
  | negotiate limits =>
    cases hs
    exact hinv.spawn rfl fun n h' => trivial
  | run n spurious =>
    obtain ⟨s', hrun, rfl⟩ := Option.map_eq_some_iff.mp hs
    obtain ⟨pc, hn, hrun⟩ := Option.bind_eq_some_iff.mp hrun
    obtain ⟨⟨t, pc'⟩, hthread, hrun⟩ := Option.bind_eq_some_iff.mp hrun
    cases hrun
    have hok' : ∀ message dpc, pc = .dispatch message dpc → Accepted h.session message dpc := by
      rintro message dpc rfl
      exact hok message dpc hn
    by_cases hother : ∀ terminal tpc, pc ≠ .terminate terminal tpc
    · rcases steady_or_closing hinv hn hok' hthread with hsteady | ⟨tpc, tpc', hpc, -⟩
      · exact hinv.run_steady hn hok' hthread hsteady hother
      · exact absurd hpc (hother _ _)
    · push Not at hother
      obtain ⟨terminal, tpc, rfl⟩ := hother
      obtain ⟨⟨rfl, -⟩, -⟩ := hinv.threads n _ hn
      obtain ⟨⟨t', tpc'⟩, htransition, heq⟩ := Option.map_eq_some_iff.mp hthread
      cases heq
      exact hinv.run_closing hn htransition
  | drop n => exact hinv.drop_step hok hs
  | force => exact hok.elim
  | respond payload =>
    simp only [step] at hs
    split_ifs at hs
    cases hs
    exact hinv.outside rfl rfl rfl rfl (fun p hp => List.mem_append_left _ hp) (.inl rfl) .inl
  | closeOutput torn =>
    simp only [step] at hs
    split_ifs at hs
    cases hs
    exact hinv.outside rfl rfl rfl rfl (fun p => id) (.inl rfl) fun _ => .inr hok.2
  | closeInput =>
    cases hs
    exact hinv.outside rfl rfl rfl rfl (fun p => id) (.inl rfl) .inl
  | exit success =>
    obtain ⟨rfl, hans⟩ := hok
    simp only [step] at hs
    split_ifs at hs
    cases hs
    exact hinv.outside rfl rfl rfl rfl (fun p => id) (.inr rfl) fun _ => .inr hans
  | waitError => exact hok.elim
  | reader stop => exact hinv.reader_step hok hs
  | writer stop nanos => exact hinv.writer_step hok hs
  | supervisor other => exact hinv.supervisor_step hok hs

theorem closing_reach {config : ProcessHostConfig} {h : Host}
    (hreach : Reach step Graceful (Host.new config) h) : Closing h :=
  hreach.invariant (closing_new config) fun _ _ _ hinv hok hs => closing_step hinv hok hs

/-! ## The supervisor closes the session -/

section Convergence

variable {h : Host} {n : Nat}

theorem reach_transition {t : SessionInner} {tpc tpc' : TransitionPc}
    (hn : h.session.threads[n]? = some (.terminate .closed tpc))
    (htransition : stepTransition h.session .closed tpc = some (t, tpc')) :
    Reach step Graceful h (h.afterRun t n (.terminate .closed tpc')) := by
  have hgraceful : Graceful h (.run n false) := by
    intro message dpc hdispatch
    rw [hn] at hdispatch
    cases hdispatch
  refine Reach.refl.tail hgraceful ?_
  have hthread : stepThread h.session n false (.terminate .closed tpc) =
      some (t, .terminate .closed tpc') := by
    rw [stepThread, htransition]
    rfl
  show (Session.step h.session (.run n false)).map _ = _
  rw [Session.step, hn, Option.bind_eq_bind, Option.bind_some, hthread]
  rfl

theorem get_afterRun {t : SessionInner} {pc pc' : Pc} (hn : h.session.threads[n]? = some pc) :
    (h.afterRun t n pc').session.threads[n]? = some pc' :=
  (get_set hn).mpr (.inl ⟨rfl, rfl⟩)

/-- A state that a graceful close goes on to, and there the session is closed. -/
def Closes (h : Host) : Prop :=
  ∃ h', Reach step Graceful h h' ∧ h'.session.state = .Closed

theorem Closes.step {h' : Host} (hreach : Reach step Graceful h h') (hcloses : Closes h') :
    Closes h := by
  obtain ⟨u, hu, hclosed⟩ := hcloses
  exact ⟨u, hreach.trans hu, hclosed⟩

theorem closes_of_load (hinv : Closing h)
    (hn : h.session.threads[n]? = some (.terminate .closed .load)) : Closes h := by
  by_cases hterminal : h.session.state = .Closed ∨ h.session.state = .Failed
  · exact ⟨h, .refl, hterminal.resolve_right hinv.state⟩
  · have hload : stepTransition h.session .closed .load =
        some (h.session, .exchange h.session.state) := by
      rw [stepTransition, if_neg hterminal]
    refine Closes.step (reach_transition hn hload) ?_
    -- nobody runs in between, so the exchange succeeds
    have hexchange : stepTransition
        (h.afterRun h.session n (.terminate .closed (.exchange h.session.state))).session .closed
        (.exchange h.session.state) = some (_, .record) := if_pos rfl
    exact ⟨_, reach_transition (get_afterRun hn) hexchange, rfl⟩

theorem closes_of_transition {tpc : TransitionPc} (hinv : Closing h)
    (hsup : h.supervisor = .transition n)
    (hn : h.session.threads[n]? = some (.terminate .closed tpc)) : Closes h := by
  obtain ⟨-, hsound, -⟩ := hinv.threads n _ hn
  cases tpc with
  | lock =>
    have hfree : ¬ h.session.terminalLock = true := by
      intro hlocked
      obtain ⟨m, terminal, mpc, hm, hlocks⟩ := hinv.lock hlocked
      obtain ⟨-, -, hwho⟩ := hinv.threads m _ hm
      -- who holds the lock is not done, so the supervisor waits for it
      have hwaits : h.supervisor = .transition m := by
        refine hwho.resolve_left fun hdone => ?_
        cases mpc with
        | done won => exact hlocks
        | _ => exact hdone rfl
      rw [hsup] at hwaits
      cases hwaits
      rw [hn] at hm
      cases hm
      exact hlocks
    have hlock : stepTransition h.session .closed .lock =
        some ({ h.session with terminalLock := true }, .load) := if_neg hfree
    have hreach := reach_transition hn hlock
    have hinv' := hreach.invariant hinv fun _ _ _ => closing_step
    exact .step hreach (closes_of_load hinv' (get_afterRun hn))
  | load => exact closes_of_load hinv hn
  | exchange current =>
    by_cases hstate : h.session.state = current
    · have hexchange : stepTransition h.session .closed (.exchange current) =
          some ({ h.session with state := .Closed }, .record) := if_pos hstate
      exact ⟨_, reach_transition hn hexchange, rfl⟩
    · have hexchange : stepTransition h.session .closed (.exchange current) =
          some (h.session, .load) := if_neg hstate
      have hreach := reach_transition hn hexchange
      have hinv' := hreach.invariant hinv fun _ _ _ => closing_step
      exact .step hreach (closes_of_load hinv' (get_afterRun hn))
  | force => exact hsound.elim
  | _ => exact ⟨h, .refl, hsound⟩

theorem closes_of_exited (hinv : Closing h) (hacked : h.session.shutdownAcked = true)
    (hsup : h.supervisor = .exited (some true)) : Closes h := by
  have hstep : step h (.supervisor false) = some (h.supervisorTransition .closed) := by
    show stepSupervisor h false = _
    rw [stepSupervisor, hsup]
    exact if_pos hacked
  have hgraceful : Graceful h (.supervisor false) := fun _ => hacked
  have hreach : Reach step Graceful h (h.supervisorTransition .closed) :=
    .tail .refl hgraceful hstep
  have hinv' := hreach.invariant hinv fun _ _ _ => closing_step
  have hnew : (h.supervisorTransition .closed).session.threads[h.session.threads.length]? =
      some (.terminate .closed .lock) := by
    show (h.session.threads ++ [_])[h.session.threads.length]? = _
    rw [List.getElem?_append_right le_rfl, Nat.sub_self]
    rfl
  exact .step hreach (closes_of_transition hinv' rfl hnew)

/-- Wherever the actors stand once the child has exited and the acknowledgement is stored, the
supervisor can close the session. -/
theorem closes_of_acknowledged (hinv : Closing h) (hacked : h.session.shutdownAcked = true)
    (hexit : h.exitStatus = some true) : Closes h := by
  have hcalm := hinv.supervisor
  unfold SupervisorCalm at hcalm
  cases hsup : h.supervisor with
  | wait =>
    have hstep : step h (.supervisor false) = some { h with supervisor := .exited (some true) } := by
      show stepSupervisor h false = _
      rw [stepSupervisor, hsup]
      simp [hexit]
    have hgraceful : Graceful h (.supervisor false) := fun _ => hacked
    have hreach : Reach step Graceful h { h with supervisor := .exited (some true) } :=
      .tail .refl hgraceful hstep
    have hinv' := hreach.invariant hinv fun _ _ _ => closing_step
    exact .step hreach (closes_of_exited hinv' hacked rfl)
  | exited success =>
    simp only [hsup] at hcalm
    obtain ⟨rfl, -⟩ := hcalm
    exact closes_of_exited hinv hacked hsup
  | kill => simp only [hsup] at hcalm
  | killed reaped => simp only [hsup] at hcalm
  | transition n =>
    simp only [hsup] at hcalm
    obtain ⟨tpc, hn⟩ := hcalm
    exact closes_of_transition hinv hsup hn
  | _ =>
    simp only [hsup] at hcalm
    exact ⟨h, .refl, hcalm⟩

end Convergence

end Cordis.Actors
