import Cordis.Host.Convergence

/-!
# What a closed session has seen

Back from a closed session to the frame that closed it: a `ShutdownAck` that was dispatched for the
request of a `shutdown`. The acknowledgement is stored in two places, by `dispatch_response` when it has
accepted an answer, and by `shutdown` when it has received one; the second is traced back to the first
through the response channel.
-/

namespace Cordis.Actors

open Protocol Session Machine Threads

/-! ## Where replies and entries come from -/

/-- Call `n` is one that expects this kind of response. -/
def CallOf (s : SessionInner) (n : Nat) (expected : ExpectedResponseKind) : Prop :=
  ∃ op pc, s.threads[n]? = some (.call op pc) ∧ op.expected = expected

/-- A `dispatch_response` that has accepted its message for this entry. -/
def DispatchPc.Passed (pc : DispatchPc) (entry : PendingEntry) : Prop :=
  pc = .acknowledge entry ∨ (∃ message, pc = .reply entry (.ok message) true) ∨
    pc = .done (some entry) true

/-- A `ShutdownAck` was dispatched for the request of a `shutdown`, and accepted. -/
def Acknowledged (s : SessionInner) : Prop :=
  ∃ (k : Nat) (id : UInt64) (pc : DispatchPc) (entry : PendingEntry) (call : CallPc),
    s.threads[k]? = some (.dispatch (.ShutdownAck id) pc) ∧ DispatchPc.Passed pc entry ∧
      entry.expected = .ShutdownAck ∧ s.threads[entry.sender]? = some (.call .shutdown call)

/-- What the call is about to return. -/
def CallPc.result : CallPc → Option Reply
  | .unregister _ result _ | .cancel _ result | .release result | .acknowledge result
  | .ended result => result
  | _ => none

/-- The entry that a `dispatch_response` has taken. -/
def DispatchPc.entry : DispatchPc → Option PendingEntry
  | .judge entry | .acknowledge entry | .reply entry .. => some entry
  | .failing _ entry _ | .done entry _ => entry
  | _ => none

/-- A call returns what was sent to it. -/
def CallTraced (s : SessionInner) (n : Nat) (op : Session.Operation) (pc : CallPc) : Prop :=
  (∀ message, CallPc.result pc = some (.ok message) → (n, .ok message) ∈ s.replies) ∧
    ∀ result, pc = .acknowledge result → op = .shutdown ∧ ∃ id, result = some (.ok (.ShutdownAck id))

/-- A `dispatch_response` answers a call that expects the answer, with its own message. -/
def DispatchTraced (s : SessionInner) (message : Message) (pc : DispatchPc) : Prop :=
  (∀ entry, DispatchPc.entry pc = some entry → CallOf s entry.sender entry.expected) ∧
    match pc with
    | .acknowledge entry => entry.expected = .ShutdownAck ∧ ∃ id, message = .ShutdownAck id
    | .reply _ (.ok sent) go => sent = message ∧ go = true
    | _ => True

/-- The response channels, traced back to the frames. -/
structure Traced (s : SessionInner) : Prop where
  pending : ∀ i e, (i, e) ∈ s.pending → CallOf s e.sender e.expected
  replies : ∀ c message, (c, .ok message) ∈ s.replies →
    ∃ (k : Nat) (entry : PendingEntry),
      s.threads[k]? = some (.dispatch message (.done (some entry) true)) ∧ entry.sender = c
  calls : ∀ (n : Nat) (op : Session.Operation) (pc : CallPc), s.threads[n]? = some (.call op pc) →
    CallTraced s n op pc
  dispatches : ∀ (n : Nat) (message : Message) (pc : DispatchPc),
    s.threads[n]? = some (.dispatch message pc) → DispatchTraced s message pc
  acked : s.shutdownAcked = true → Acknowledged s

/-- Threads go on as they are. -/
structure Follows (s t : SessionInner) : Prop where
  calls : ∀ (n : Nat) (op : Session.Operation) (pc : CallPc), s.threads[n]? = some (.call op pc) →
    ∃ pc', t.threads[n]? = some (.call op pc')
  passed : ∀ (n : Nat) (message : Message) (pc : DispatchPc) (entry : PendingEntry),
    s.threads[n]? = some (.dispatch message pc) → DispatchPc.Passed pc entry →
      ∃ pc', t.threads[n]? = some (.dispatch message pc') ∧ DispatchPc.Passed pc' entry
  finished : ∀ (n : Nat) (message : Message) (entry : Option PendingEntry) (go : Bool),
    s.threads[n]? = some (.dispatch message (.done entry go)) →
      t.threads[n]? = some (.dispatch message (.done entry go))

namespace Follows

variable {s t : SessionInner}

theorem of_extends (h : ∀ (n : Nat) (pc : Pc), s.threads[n]? = some pc → t.threads[n]? = some pc) :
    Follows s t where
  calls n _ pc hn := ⟨pc, h n _ hn⟩
  passed n _ pc _ hn hpassed := ⟨pc, h n _ hn, hpassed⟩
  finished n _ _ _ hn := h n _ hn

theorem callOf (h : Follows s t) {n : Nat} {expected : ExpectedResponseKind}
    (hcall : CallOf s n expected) : CallOf t n expected := by
  obtain ⟨op, pc, hn, hexpected⟩ := hcall
  obtain ⟨pc', hn'⟩ := h.calls n op pc hn
  exact ⟨op, pc', hn', hexpected⟩

theorem acknowledged (h : Follows s t) (hacked : Acknowledged s) : Acknowledged t := by
  obtain ⟨k, id, pc, entry, call, hk, hpassed, hexpected, hcall⟩ := hacked
  obtain ⟨pc', hk', hpassed'⟩ := h.passed k _ pc entry hk hpassed
  obtain ⟨call', hcall'⟩ := h.calls _ _ _ hcall
  exact ⟨k, id, pc', entry, call', hk', hpassed', hexpected, hcall'⟩

end Follows

theorem Traced.follows {s t : SessionInner} (h : Traced s) (hfollows : Follows s t)
    (hpending : ∀ i e, (i, e) ∈ t.pending → (i, e) ∈ s.pending ∨ CallOf t e.sender e.expected)
    (hreplies : ∀ c message, (c, .ok message) ∈ t.replies → (c, .ok message) ∈ s.replies ∨
      ∃ (k : Nat) (entry : PendingEntry),
        t.threads[k]? = some (.dispatch message (.done (some entry) true)) ∧ entry.sender = c)
    (hkept : ∀ c reply, (c, reply) ∈ s.replies → (c, reply) ∈ t.replies)
    (hcalls : ∀ (n : Nat) (op : Session.Operation) (pc : CallPc), t.threads[n]? = some (.call op pc) →
      s.threads[n]? = some (.call op pc) ∨ CallTraced t n op pc)
    (hdispatches : ∀ (n : Nat) (message : Message) (pc : DispatchPc),
      t.threads[n]? = some (.dispatch message pc) →
        s.threads[n]? = some (.dispatch message pc) ∨ DispatchTraced t message pc)
    (hacked : t.shutdownAcked = true → s.shutdownAcked = true ∨ Acknowledged t) : Traced t where
  pending i e hmem := (hpending i e hmem).elim (fun hold => hfollows.callOf (h.pending i e hold)) id
  replies c message hmem := by
    rcases hreplies c message hmem with hold | hnew
    · obtain ⟨k, entry, hk, hsender⟩ := h.replies c message hold
      exact ⟨k, entry, hfollows.finished k _ _ _ hk, hsender⟩
    · exact hnew
  calls n op pc hn := by
    rcases hcalls n op pc hn with hold | hnew
    · obtain ⟨hresult, hack⟩ := h.calls n op pc hold
      exact ⟨fun message heq => hkept _ _ (hresult message heq), hack⟩
    · exact hnew
  dispatches n message pc hn := by
    rcases hdispatches n message pc hn with hold | hnew
    · obtain ⟨hentry, hrest⟩ := h.dispatches n message pc hold
      exact ⟨fun entry heq => hfollows.callOf (hentry entry heq), hrest⟩
    · exact hnew
  acked ha := (hacked ha).elim (fun hold => hfollows.acknowledged (h.acked hold)) id

/-! ## Steps of the threads -/

section Run

variable {s t : SessionInner} {n : Nat} {b : Bool}

/-- The session after a step of thread `n`. -/
def afterThread (s t : SessionInner) (n : Nat) (pc' : Pc) : SessionInner :=
  { t with threads := s.threads.set n pc' }

theorem stepCall_pending {op : Session.Operation} {pc pc' : CallPc}
    (h : stepCall s n op b pc = some (t, pc')) {i : Nat} {e : PendingEntry}
    (hmem : (i, e) ∈ t.pending) : (i, e) ∈ s.pending ∨ e = ⟨n, op.expected⟩ := by
  cases pc with
  | begin =>
    simp only [stepCall, stepBegin] at h
    repeat' split at h
    all_goals
      cases h
      exact .inl hmem
  | register id =>
    cases h
    rcases List.mem_cons.mp hmem with heq | hold
    · cases heq
      exact .inr rfl
    · exact .inl (Tracked.mem_filter_ne.mp hold).1
  | unregister id result guarded =>
    cases h
    exact .inl (Tracked.mem_filter_ne.mp hmem).1
  | cancel id result =>
    cases h
    revert hmem
    unfold SessionInner.trySend
    split_ifs <;> exact .inl
  | _ =>
    simp only [stepCall, stepEnqueue, stepAwait] at h
    repeat' split at h
    all_goals
      cases h
      try exact .inl hmem

theorem stepCall_acknowledges {op : Session.Operation} {pc pc' : CallPc}
    (h : stepCall s n op b pc = some (t, pc')) (hold : ¬ s.shutdownAcked = true)
    (hacked : t.shutdownAcked = true) : ∃ result, pc = .acknowledge result := by
  cases pc with
  | acknowledge result => exact ⟨result, rfl⟩
  | begin =>
    simp only [stepCall, stepBegin] at h
    repeat' split at h
    all_goals
      cases h
      exact absurd hacked hold
  | cancel id result =>
    cases h
    revert hacked
    unfold SessionInner.trySend
    split_ifs <;> exact fun hacked => absurd hacked hold
  | _ =>
    simp only [stepCall, stepEnqueue, stepAwait] at h
    repeat' split at h
    all_goals
      cases h
      try exact absurd hacked hold

theorem stepCall_traced {op : Session.Operation} {pc pc' : CallPc} (htraced : CallTraced s n op pc)
    (h : stepCall s n op b pc = some (t, pc')) (threads : List Pc) :
    CallTraced { t with threads := threads } n op pc' := by
  obtain ⟨hresult, hack⟩ := htraced
  have hreplies := stepCall_replies h
  -- most steps lead to a place with no result, or with an error
  have hclear : (∀ message, CallPc.result pc' = some (.ok message) → (n, .ok message) ∈ s.replies) →
      (∀ result, pc' ≠ .acknowledge result) → CallTraced { t with threads := threads } n op pc' := by
    intro hsent hnot
    refine ⟨fun message heq => ?_, fun result heq => absurd heq (hnot result)⟩
    show _ ∈ t.replies
    rw [hreplies]
    exact hsent message heq
  cases pc with
  | begin =>
    simp only [stepCall, stepBegin] at h
    repeat' split at h
    all_goals
      cases h
      exact hclear (by simp [CallPc.result]) (by simp)
  | await id =>
    simp only [stepCall, stepAwait] at h
    split at h
    · rename_i reply hreply
      cases h
      refine hclear (fun message heq => ?_) (by simp)
      cases heq
      exact mem_of_lookup hreply
    · split_ifs at h <;> cases h <;> exact hclear (by simp [CallPc.result]) (by simp)
  | refuse held fallback =>
    simp only [stepCall] at h
    split_ifs at h
    cases h
    cases held <;> exact hclear (by simp [Held.give, CallPc.result]) (by simp [Held.give])
  | unregister id result guarded =>
    cases h
    cases guarded <;> exact hclear hresult (by simp)
  | cancel id result =>
    cases h
    exact hclear hresult (by simp)
  | release result =>
    simp only [stepCall] at h
    split at h
    · rename_i id
      cases h
      refine ⟨hresult, fun result heq => ?_⟩
      cases heq
      exact ⟨rfl, id, rfl⟩
    · cases h
      exact hclear hresult (by simp)
  | acknowledge result =>
    cases h
    exact hclear hresult (by simp)
  | ended result => cases h
  | acquire =>
    simp only [stepCall] at h
    split_ifs at h <;> cases h <;> exact hclear (by simp [CallPc.result]) (by simp)
  | exchange id =>
    simp only [stepCall] at h
    split_ifs at h <;> cases h <;> exact hclear (by simp [CallPc.result]) (by simp)
  | publish id =>
    cases h
    exact hclear (by simp [CallPc.result]) (by simp)
  | register id =>
    cases h
    exact hclear (by simp [CallPc.result]) (by simp)
  | enqueue id =>
    simp only [stepCall, stepEnqueue] at h
    split_ifs at h <;> cases h <;> exact hclear (by simp [CallPc.result]) (by simp)
  | _ =>
    simp only [stepCall] at h
    split_ifs at h <;> cases h <;> exact hclear (by simp [CallPc.result]) (by simp)

theorem stepTransition_channels {terminal : Terminal} {pc pc' : TransitionPc}
    (h : stepTransition s terminal pc = some (t, pc')) :
    (∀ i e, (i, e) ∈ t.pending → (i, e) ∈ s.pending) ∧
      (∀ c message, (c, .ok message) ∈ t.replies → (c, .ok message) ∈ s.replies) ∧
      (∀ c reply, (c, reply) ∈ s.replies → (c, reply) ∈ t.replies) ∧
      t.shutdownAcked = s.shutdownAcked := by
  cases pc with
  | lock =>
    simp only [stepTransition] at h
    split_ifs at h
    cases h
    exact ⟨fun _ _ => id, fun _ _ => id, fun _ _ => id, rfl⟩
  | load =>
    simp only [stepTransition] at h
    split_ifs at h <;> cases h <;> exact ⟨fun _ _ => id, fun _ _ => id, fun _ _ => id, rfl⟩
  | exchange current =>
    simp only [stepTransition] at h
    split_ifs at h <;> cases h <;> exact ⟨fun _ _ => id, fun _ _ => id, fun _ _ => id, rfl⟩
  | record =>
    cases terminal <;> cases h <;> exact ⟨fun _ _ => id, fun _ _ => id, fun _ _ => id, rfl⟩
  | drain =>
    cases h
    refine ⟨by simp, fun c message hmem => ?_, fun c reply hmem => List.mem_append_left _ hmem, rfl⟩
    rcases List.mem_append.mp hmem with hold | hnew
    · exact hold
    · obtain ⟨p, -, hp⟩ := List.mem_map.mp hnew
      cases hp
  | stop =>
    cases h
    exact ⟨fun _ _ => id, fun _ _ => id, fun _ _ => id, rfl⟩
  | force =>
    cases h
    exact ⟨fun _ _ => id, fun _ _ => id, fun _ _ => id, rfl⟩
  | notify =>
    cases h
    exact ⟨fun _ _ => id, fun _ _ => id, fun _ _ => id, rfl⟩
  | done won => cases h

theorem follows_run {pc pc' : Pc} (hn : s.threads[n]? = some pc)
    (h : stepThread s n b pc = some (t, pc')) : Follows s (afterThread s t n pc') := by
  constructor
  · intro m op cpc hm
    by_cases hmn : m = n
    · subst hmn
      rw [hn] at hm
      cases hm
      obtain ⟨⟨t', cpc'⟩, -, heq⟩ := Option.map_eq_some_iff.mp h
      cases heq
      exact ⟨cpc', (get_set hn).mpr (.inl ⟨rfl, rfl⟩)⟩
    · exact ⟨cpc, (get_set hn).mpr (.inr ⟨hmn, hm⟩)⟩
  · intro m message dpc entry hm hpassed
    by_cases hmn : m = n
    · subst hmn
      rw [hn] at hm
      cases hm
      obtain ⟨⟨t', dpc'⟩, hdispatch, heq⟩ := Option.map_eq_some_iff.mp h
      cases heq
      refine ⟨dpc', (get_set hn).mpr (.inl ⟨rfl, rfl⟩), ?_⟩
      rcases hpassed with rfl | ⟨sent, rfl⟩ | rfl
      · cases hdispatch
        exact .inr (.inl ⟨message, rfl⟩)
      · cases hdispatch
        exact .inr (.inr rfl)
      · cases hdispatch
    · exact ⟨dpc, (get_set hn).mpr (.inr ⟨hmn, hm⟩), hpassed⟩
  · intro m message entry go hm
    refine (get_set hn).mpr (.inr ⟨?_, hm⟩)
    rintro rfl
    rw [hn] at hm
    cases hm
    cases h

/-- No live `Shutdown` is answered by a failure that leaves the session as it is. -/
def Refuses (message : Message) (pc : DispatchPc) : Prop :=
  ∃ entry, pc = .judge entry ∧ entry.expected = .ShutdownAck ∧ isFailure message = true ∧
    terminalRemote message = none

theorem isAck_of_accepts {message : Message}
    (haccepts : ExpectedResponseKind.ShutdownAck.accepts message = true)
    (hfailure : isFailure message = false) : ∃ id, message = .ShutdownAck id := by
  cases message with
  | ShutdownAck id => exact ⟨id, rfl⟩
  | Failure id failure => cases hfailure
  | _ => cases haccepts

theorem stepDispatch_traced {message : Message} {pc pc' : DispatchPc} (hinv : Traced s)
    (htraced : DispatchTraced s message pc) (hok : ¬ Refuses message pc)
    (h : stepDispatch s message pc = some (t, pc'))
    (hfollows : Follows s (afterThread s t n (.dispatch message pc'))) :
    DispatchTraced (afterThread s t n (.dispatch message pc')) message pc' := by
  obtain ⟨hentry, hrest⟩ := htraced
  have hold : ∀ entry, DispatchPc.entry pc = some entry →
      CallOf (afterThread s t n (.dispatch message pc')) entry.sender entry.expected :=
    fun entry heq => hfollows.callOf (hentry entry heq)
  cases pc with
  | check =>
    simp only [stepDispatch] at h
    split_ifs at h <;> cases h <;> exact ⟨by simp [DispatchPc.entry], trivial⟩
  | remove =>
    simp only [stepDispatch] at h
    split at h
    · cases h
      exact ⟨by simp [DispatchPc.entry], trivial⟩
    · rename_i entry hlookup
      cases h
      refine ⟨fun e heq => ?_, trivial⟩
      cases heq
      exact hfollows.callOf (hinv.pending _ _ (mem_of_lookup hlookup))
  | judge entry =>
    rw [stepDispatch] at h
    split at h
    · cases h
      exact ⟨hold, trivial⟩
    · rename_i haccepts
      split at h
      · cases h
        exact ⟨hold, trivial⟩
      · rename_i hremote
        split_ifs at h with hexpected <;> cases h
        · refine ⟨hold, hexpected, ?_⟩
          have hfailure : isFailure message = false := by
            by_contra hbad
            exact hok ⟨entry, rfl, hexpected, by simpa using hbad, hremote⟩
          rw [not_not, hexpected] at haccepts
          exact isAck_of_accepts haccepts hfailure
        · exact ⟨hold, rfl, rfl⟩
  | failing error entry transition =>
    simp only [stepDispatch] at h
    split at h
    · cases h
      exact ⟨hold, trivial⟩
    · cases h
      exact ⟨by simp [DispatchPc.entry], trivial⟩
    · obtain ⟨p, hp, hpc⟩ := Option.map_eq_some_iff.mp h
      cases hpc
      exact ⟨hold, trivial⟩
  | acknowledge entry =>
    cases h
    exact ⟨hold, rfl, rfl⟩
  | reply entry reply go =>
    cases h
    exact ⟨hold, trivial⟩
  | done entry go => cases h

theorem Traced.run_call {op : Session.Operation} {pc pc' : CallPc} (hinv : Traced s)
    (hn : s.threads[n]? = some (.call op pc)) (h : stepCall s n op b pc = some (t, pc')) :
    Traced (afterThread s t n (.call op pc')) := by
  have hthread : stepThread s n b (.call op pc) = some (t, .call op pc') := by
    rw [stepThread, h]
    rfl
  have hreplies := stepCall_replies h
  apply hinv.follows (follows_run hn hthread)
  · intro i e hmem
    refine (stepCall_pending h hmem).imp id ?_
    rintro rfl
    exact ⟨op, pc', (get_set hn).mpr (.inl ⟨rfl, rfl⟩), rfl⟩
  · intro c message hmem
    have hmem' : (c, .ok message) ∈ t.replies := hmem
    rw [hreplies] at hmem'
    exact .inl hmem'
  · intro c reply hmem
    show _ ∈ t.replies
    rwa [hreplies]
  · intro m op' cpc hm
    rcases (get_set hn).mp hm with ⟨rfl, heq⟩ | ⟨-, hold⟩
    · cases heq
      exact .inr (stepCall_traced (hinv.calls m op pc hn) h _)
    · exact .inl hold
  · intro m message dpc hm
    rcases (get_set hn).mp hm with ⟨-, heq⟩ | ⟨-, hold⟩
    · cases heq
    · exact .inl hold
  · intro hacked
    by_cases hold : s.shutdownAcked = true
    · exact .inl hold
    · -- only the last step of `shutdown` stores the flag, with what it was sent
      right
      obtain ⟨result, rfl⟩ := stepCall_acknowledges h hold hacked
      obtain ⟨hresult, hack⟩ := hinv.calls n op _ hn
      obtain ⟨rfl, id, rfl⟩ := hack _ rfl
      obtain ⟨k, entry, hk, hsender⟩ := hinv.replies _ _ (hresult _ rfl)
      obtain ⟨op', cpc, hcall, hexpected⟩ := (hinv.dispatches _ _ _ hk).1 entry rfl
      rw [hsender, hn] at hcall
      cases hcall
      have hdone := (follows_run hn hthread).finished _ _ _ _ hk
      refine ⟨k, id, _, entry, pc', hdone, .inr (.inr rfl), hexpected.symm, ?_⟩
      rw [hsender]
      exact (get_set hn).mpr (.inl ⟨rfl, rfl⟩)

theorem Traced.run_dispatch {message : Message} {pc pc' : DispatchPc} (hinv : Traced s)
    (hn : s.threads[n]? = some (.dispatch message pc)) (hok : ¬ Refuses message pc)
    (h : stepDispatch s message pc = some (t, pc')) :
    Traced (afterThread s t n (.dispatch message pc')) := by
  have hthread : stepThread s n false (.dispatch message pc) = some (t, .dispatch message pc') := by
    rw [stepThread, h]
    rfl
  have hfollows := follows_run hn hthread
  have htraced := hinv.dispatches n message pc hn
  have hself : (afterThread s t n (.dispatch message pc')).threads[n]? =
      some (.dispatch message pc') := (get_set hn).mpr (.inl ⟨rfl, rfl⟩)
  have hchannels : (∀ i e, (i, e) ∈ t.pending → (i, e) ∈ s.pending) ∧
      (∀ c m, (c, .ok m) ∈ t.replies → (c, .ok m) ∈ s.replies ∨
        m = message ∧ ∃ entry, pc' = .done (some entry) true ∧ entry.sender = c) ∧
      (∀ c reply, (c, reply) ∈ s.replies → (c, reply) ∈ t.replies) ∧
      (t.shutdownAcked = true → s.shutdownAcked = true ∨ ∃ entry, pc = .acknowledge entry) := by
    cases pc with
    | check =>
      simp only [stepDispatch] at h
      split_ifs at h <;> cases h <;> exact ⟨fun _ _ => id, fun _ _ => .inl, fun _ _ => id, .inl⟩
    | remove =>
      simp only [stepDispatch] at h
      split at h <;> cases h
      · exact ⟨fun _ _ => id, fun _ _ => .inl, fun _ _ => id, .inl⟩
      · exact ⟨fun i e hmem => (Tracked.mem_filter_ne.mp hmem).1, fun _ _ => .inl, fun _ _ => id, .inl⟩
    | judge entry =>
      rw [stepDispatch] at h
      repeat' split at h
      all_goals
        cases h
        exact ⟨fun _ _ => id, fun _ _ => .inl, fun _ _ => id, .inl⟩
    | failing error entry transition =>
      simp only [stepDispatch] at h
      split at h
      · cases h
        exact ⟨fun _ _ => id, fun _ _ => .inl, fun _ _ => id, .inl⟩
      · cases h
        exact ⟨fun _ _ => id, fun _ _ => .inl, fun _ _ => id, .inl⟩
      · obtain ⟨p, hp, hpc⟩ := Option.map_eq_some_iff.mp h
        cases hpc
        obtain ⟨hpending, hreplies, hkept, hacked⟩ := stepTransition_channels hp
        exact ⟨hpending, fun c m hmem => .inl (hreplies c m hmem), hkept,
          fun ha => .inl (hacked.symm.trans ha)⟩
    | acknowledge entry =>
      cases h
      exact ⟨fun _ _ => id, fun _ _ => .inl, fun _ _ => id, fun _ => .inr ⟨entry, rfl⟩⟩
    | reply entry reply go =>
      cases h
      refine ⟨fun _ _ => id, fun c m hmem => ?_, fun c r hmem => List.mem_append_left _ hmem, .inl⟩
      rcases List.mem_append.mp hmem with hold | hnew
      · exact .inl hold
      · obtain ⟨rfl, rfl⟩ := Prod.mk.inj (List.mem_singleton.mp hnew)
        obtain ⟨rfl, rfl⟩ := htraced.2
        exact .inr ⟨rfl, entry, rfl, rfl⟩
    | done entry go => cases h
  obtain ⟨hpending, hreplies, hkept, hacked⟩ := hchannels
  apply hinv.follows hfollows
  · exact fun i e hmem => .inl (hpending i e hmem)
  · intro c m hmem
    rcases hreplies c m hmem with hold | ⟨rfl, entry, rfl, hsender⟩
    · exact .inl hold
    · exact .inr ⟨n, entry, hself, hsender⟩
  · exact hkept
  · intro m op cpc hm
    rcases (get_set hn).mp hm with ⟨-, heq⟩ | ⟨-, hold⟩
    · cases heq
    · exact .inl hold
  · intro m message' dpc hm
    rcases (get_set hn).mp hm with ⟨rfl, heq⟩ | ⟨-, hold⟩
    · cases heq
      exact .inr (stepDispatch_traced hinv htraced hok h hfollows)
    · exact .inl hold
  · intro ha
    rcases hacked ha with hold | ⟨entry, rfl⟩
    · exact .inl hold
    · right
      obtain ⟨hentry, hexpected, id, rfl⟩ := htraced
      obtain ⟨op, cpc, hcall, hop⟩ := hentry entry rfl
      have hshutdown : op = .shutdown := by
        rw [hexpected] at hop
        cases op with
        | shutdown => rfl
        | _ => cases hop
      rw [hshutdown] at hcall
      obtain ⟨cpc', hcall'⟩ := hfollows.calls _ _ _ hcall
      cases h
      exact ⟨n, id, _, entry, cpc', hself, .inr (.inl ⟨_, rfl⟩), hexpected, hcall'⟩

theorem Traced.run_other {pc pc' : Pc} (hinv : Traced s) (hn : s.threads[n]? = some pc)
    (h : stepThread s n b pc = some (t, pc'))
    (hcall : ∀ op cpc, pc' ≠ .call op cpc) (hdispatch : ∀ message dpc, pc' ≠ .dispatch message dpc)
    (hpending : ∀ i e, (i, e) ∈ t.pending → (i, e) ∈ s.pending)
    (hreplies : ∀ c message, (c, .ok message) ∈ t.replies → (c, .ok message) ∈ s.replies)
    (hkept : ∀ c reply, (c, reply) ∈ s.replies → (c, reply) ∈ t.replies)
    (hacked : t.shutdownAcked = true → s.shutdownAcked = true) : Traced (afterThread s t n pc') := by
  apply hinv.follows (follows_run hn h)
  · exact fun i e hmem => .inl (hpending i e hmem)
  · exact fun c message hmem => .inl (hreplies c message hmem)
  · exact hkept
  · intro m op cpc hm
    rcases (get_set hn).mp hm with ⟨-, heq⟩ | ⟨-, hold⟩
    · exact absurd heq.symm (hcall op cpc)
    · exact .inl hold
  · intro m message dpc hm
    rcases (get_set hn).mp hm with ⟨-, heq⟩ | ⟨-, hold⟩
    · exact absurd heq.symm (hdispatch message dpc)
    · exact .inl hold
  · exact fun ha => .inl (hacked ha)

theorem Traced.run {pc pc' : Pc} (hinv : Traced s) (hn : s.threads[n]? = some pc)
    (hok : ∀ message dpc, pc = .dispatch message dpc → ¬ Refuses message dpc)
    (h : stepThread s n b pc = some (t, pc')) : Traced (afterThread s t n pc') := by
  cases pc with
  | call op cpc =>
    obtain ⟨⟨t', cpc'⟩, hcall, heq⟩ := Option.map_eq_some_iff.mp h
    cases heq
    exact hinv.run_call hn hcall
  | dispatch message dpc =>
    obtain ⟨⟨t', dpc'⟩, hdispatch, heq⟩ := Option.map_eq_some_iff.mp h
    cases heq
    exact hinv.run_dispatch hn (hok _ _ rfl) hdispatch
  | terminate terminal tpc =>
    have hrun := h
    obtain ⟨⟨t', tpc'⟩, htransition, heq⟩ := Option.map_eq_some_iff.mp h
    cases heq
    obtain ⟨hpending, hreplies, hkept, hacked⟩ := stepTransition_channels htransition
    exact hinv.run_other hn hrun (by simp) (by simp) hpending hreplies hkept
      fun ha => hacked.symm.trans ha
  | negotiate limits npc =>
    have hrun := h
    obtain ⟨⟨t', npc'⟩, hnegotiate, heq⟩ := Option.map_eq_some_iff.mp h
    cases heq
    obtain ⟨hpending, hreplies, -⟩ := (stepNegotiate_effect hnegotiate).1
    refine hinv.run_other hn hrun (by simp) (by simp) ?_ ?_ ?_ ?_
    · rw [hpending]
      exact fun i e => id
    · rw [hreplies]
      exact fun c message => id
    · rw [hreplies]
      exact fun c reply => id
    · cases npc with
      | check =>
        simp only [stepNegotiate] at hnegotiate
        repeat' split at hnegotiate
        all_goals
          cases hnegotiate
          exact id
      | ready =>
        simp only [stepNegotiate] at hnegotiate
        split_ifs at hnegotiate <;> cases hnegotiate <;> exact id
      | done accepted => cases hnegotiate
      | _ =>
        cases hnegotiate
        exact id

theorem stepTransition_state {terminal : Terminal} {pc pc' : TransitionPc}
    (h : stepTransition s terminal pc = some (t, pc')) :
    t.state = s.state ∨ t.state = terminal.state := by
  cases pc with
  | lock =>
    simp only [stepTransition] at h
    split_ifs at h
    cases h
    exact .inl rfl
  | load =>
    simp only [stepTransition] at h
    split_ifs at h <;> cases h <;> exact .inl rfl
  | exchange current =>
    simp only [stepTransition] at h
    split_ifs at h <;> cases h
    · exact .inr rfl
    · exact .inl rfl
  | record => cases terminal <;> cases h <;> exact .inl rfl
  | done won => cases h
  | _ =>
    cases h
    exact .inl rfl

theorem stepThread_outcome {pc pc' : Pc} (h : stepThread s n b pc = some (t, pc')) :
    (t.state = .Closed → s.state = .Closed ∨ ∃ tpc, pc = .terminate .closed tpc) ∧
      (s.shutdownAcked = true → t.shutdownAcked = true) := by
  cases pc with
  | call op cpc =>
    obtain ⟨⟨t', cpc'⟩, hcall, heq⟩ := Option.map_eq_some_iff.mp h
    cases heq
    have hsteady := stepCall_steady hcall
    exact ⟨fun ht => .inl (hsteady.was_closed ht), hsteady.acked⟩
  | dispatch message dpc =>
    obtain ⟨⟨t', dpc'⟩, hdispatch, heq⟩ := Option.map_eq_some_iff.mp h
    cases heq
    cases dpc with
    | failing error entry transition =>
      simp only [stepDispatch] at hdispatch
      split at hdispatch
      · cases hdispatch
        exact ⟨.inl, id⟩
      · cases hdispatch
        exact ⟨.inl, id⟩
      · obtain ⟨p, hp, hpc⟩ := Option.map_eq_some_iff.mp hdispatch
        cases hpc
        obtain ⟨-, -, -, hacked⟩ := stepTransition_channels hp
        refine ⟨fun ht => ?_, fun ha => hacked.trans ha⟩
        rcases stepTransition_state hp with hsame | hfailed
        · exact .inl (hsame.symm.trans ht)
        · rw [hfailed] at ht
          cases ht
    | acknowledge entry =>
      cases hdispatch
      exact ⟨.inl, fun _ => rfl⟩
    | done entry go => cases hdispatch
    | _ =>
      rw [stepDispatch] at hdispatch
      repeat' split at hdispatch
      all_goals
        cases hdispatch
        exact ⟨.inl, id⟩
  | terminate terminal tpc =>
    obtain ⟨⟨t', tpc'⟩, htransition, heq⟩ := Option.map_eq_some_iff.mp h
    cases heq
    obtain ⟨-, -, -, hacked⟩ := stepTransition_channels htransition
    refine ⟨fun ht => ?_, fun ha => hacked.trans ha⟩
    cases terminal with
    | closed => exact .inr ⟨tpc, rfl⟩
    | failed error =>
      rcases stepTransition_state htransition with hsame | hfailed
      · exact .inl (hsame.symm.trans ht)
      · rw [hfailed] at ht
        cases ht
  | negotiate limits npc =>
    obtain ⟨⟨t', npc'⟩, hnegotiate, heq⟩ := Option.map_eq_some_iff.mp h
    cases heq
    have hsteady := stepNegotiate_steady hnegotiate
    exact ⟨fun ht => .inl (hsteady.was_closed ht), hsteady.acked⟩

end Run

/-! ## Steps of the whole -/

/-- No live `Shutdown` is answered by a failure that leaves the session as it is. -/
def Acknowledges (h : Host) : Label → Prop
  | .run n _ => ∀ message pc, h.session.threads[n]? = some (.dispatch message pc) →
      ¬ Refuses message pc
  | _ => True

/-- What a session has seen once it is closed, or about to be. -/
structure Seen (h : Host) : Prop where
  traced : Traced h.session
  closed : (h.session.state = .Closed ∨ ∃ (n : Nat) (pc : TransitionPc),
      h.session.threads[n]? = some (.terminate .closed pc)) →
    h.session.shutdownAcked = true ∧ h.exitStatus = some true
  exited : ∀ success, h.supervisor = .exited (some success) → h.exitStatus = some success

theorem Traced.spawn {s : SessionInner} {pc : Pc} (hinv : Traced s)
    (hcall : ∀ op cpc, pc = .call op cpc → cpc = .begin)
    (hdispatch : ∀ message dpc, pc = .dispatch message dpc → dpc = .check) :
    Traced (s.spawn pc) := by
  refine hinv.follows (.of_extends fun n p hn => ?_) (fun i e => .inl) (fun c message => .inl)
    (fun c reply => id) ?_ ?_ .inl
  · obtain ⟨hlt, -⟩ := List.getElem?_eq_some_iff.mp hn
    show (s.threads ++ [pc])[n]? = some p
    rw [List.getElem?_append_left hlt, hn]
  · intro n op cpc hn
    rcases new_thread hn with hold | ⟨-, heq⟩
    · exact .inl hold
    · obtain rfl := hcall op cpc heq.symm
      exact .inr ⟨by simp [CallPc.result], by simp⟩
  · intro n message dpc hn
    rcases new_thread hn with hold | ⟨-, heq⟩
    · exact .inl hold
    · obtain rfl := hdispatch message dpc heq.symm
      exact .inr ⟨by simp [DispatchPc.entry], trivial⟩

theorem Traced.drop {s s' : SessionInner} {n : Nat} (hinv : Traced s)
    (h : Session.step s (.drop n) = some s') : Traced s' ∧ ∃ op cpc cpc',
      s.threads[n]? = some (.call op cpc) ∧ s' = { s with threads := s.threads.set n (.call op cpc') } := by
  obtain ⟨pc, hn, h⟩ := Option.bind_eq_some_iff.mp h
  obtain ⟨pc', hdrop, h⟩ := Option.bind_eq_some_iff.mp h
  cases h
  cases pc with
  | dispatch message dpc => cases hdrop
  | terminate terminal tpc => cases hdrop
  | negotiate limits npc => cases hdrop
  | call op cpc =>
    obtain ⟨cpc', hcall, rfl⟩ := Option.map_eq_some_iff.mp hdrop
    have hclear : CallPc.result cpc' = none ∧ ∀ result, cpc' ≠ .acknowledge result := by
      unfold dropCall at hcall
      split at hcall
      · cases hcall
        exact ⟨rfl, by simp⟩
      · split_ifs at hcall
        cases hcall
        exact ⟨rfl, by simp⟩
      · cases hcall
        exact ⟨rfl, by simp⟩
      · split_ifs at hcall
        cases hcall
        exact ⟨rfl, by simp⟩
      · cases hcall
        exact ⟨rfl, by simp⟩
      · cases hcall
    refine ⟨?_, op, cpc, cpc', hn, rfl⟩
    have hother : ∀ (m : Nat) (p : Pc), s.threads[m]? = some p → (∀ pc, p ≠ .call op pc) →
        (s.threads.set n (.call op cpc'))[m]? = some p := by
      intro m p hm hp
      refine (get_set hn).mpr (.inr ⟨?_, hm⟩)
      rintro rfl
      rw [hn] at hm
      exact hp _ (Option.some.inj hm).symm
    refine hinv.follows ⟨?_, ?_, ?_⟩ (fun i e => .inl) (fun c message => .inl) (fun c reply => id)
      ?_ ?_ .inl
    · intro m op' pc hm
      by_cases hmn : m = n
      · subst hmn
        rw [hn] at hm
        cases hm
        exact ⟨cpc', (get_set hn).mpr (.inl ⟨rfl, rfl⟩)⟩
      · exact ⟨pc, (get_set hn).mpr (.inr ⟨hmn, hm⟩)⟩
    · intro m message dpc entry hm hpassed
      exact ⟨dpc, hother m _ hm (by simp), hpassed⟩
    · intro m message entry go hm
      exact hother m _ hm (by simp)
    · intro m op' pc hm
      rcases (get_set hn).mp hm with ⟨-, heq⟩ | ⟨-, hold⟩
      · cases heq
        right
        refine ⟨fun message heq => ?_, fun result heq => absurd heq (hclear.2 result)⟩
        rw [hclear.1] at heq
        cases heq
      · exact .inl hold
    · intro m message dpc hm
      rcases (get_set hn).mp hm with ⟨-, heq⟩ | ⟨-, hold⟩
      · cases heq
      · exact .inl hold

/-- What the actors do to a session, short of closing it. -/
inductive Touches (s : SessionInner) : SessionInner → Prop
  | quiet {t : SessionInner} : t.threads = s.threads → t.pending = s.pending →
      t.replies = s.replies → t.state = s.state → t.shutdownAcked = s.shutdownAcked → Touches s t
  | dispatch (message : Message) : Touches s (s.spawn (.dispatch message .check))
  | fail (error : HostError) : Touches s (s.spawn (.terminate (.failed error) .lock))

theorem Touches.refl (s : SessionInner) : Touches s s := .quiet rfl rfl rfl rfl rfl

theorem Traced.touches {s t : SessionInner} (hinv : Traced s) (ht : Touches s t) : Traced t := by
  cases ht with
  | quiet hthreads hpending hreplies hstate hacked =>
    refine hinv.follows (.of_extends ?_) ?_ ?_ ?_ ?_ ?_ ?_
    · rw [hthreads]
      exact fun n pc => id
    · rw [hpending]
      exact fun i e => .inl
    · rw [hreplies]
      exact fun c message => .inl
    · rw [hreplies]
      exact fun c reply => id
    · rw [hthreads]
      exact fun n op pc => .inl
    · rw [hthreads]
      exact fun n message pc => .inl
    · rw [hacked]
      exact .inl
  | dispatch message =>
    refine hinv.spawn (by simp) fun message' dpc heq => ?_
    cases heq
    rfl
  | fail error => exact hinv.spawn (by simp) (by simp)

theorem Seen.touches {h h' : Host} (hinv : Seen h) (ht : Touches h.session h'.session)
    (hexit : ∀ success, h.exitStatus = some success → h'.exitStatus = some success)
    (hsupervisor : ∀ success, h'.supervisor = .exited (some success) →
      h.supervisor = .exited (some success)) : Seen h' where
  traced := hinv.traced.touches ht
  closed hor := by
    have hold : h.session.state = .Closed ∨ ∃ (n : Nat) (pc : TransitionPc),
        h.session.threads[n]? = some (.terminate .closed pc) := by
      rcases hor with hclosed | ⟨n, pc, hn⟩
      · left
        generalize h'.session = t at ht hclosed
        cases ht with
        | quiet _ _ _ hstate => exact hstate.symm.trans hclosed
        | dispatch message => exact hclosed
        | fail error => exact hclosed
      · right
        generalize h'.session = t at ht hn
        cases ht with
        | quiet hthreads =>
          rw [hthreads] at hn
          exact ⟨n, pc, hn⟩
        | dispatch message =>
          rcases new_thread hn with hold | ⟨-, heq⟩
          · exact ⟨n, pc, hold⟩
          · cases heq
        | fail error =>
          rcases new_thread hn with hold | ⟨-, heq⟩
          · exact ⟨n, pc, hold⟩
          · cases heq
    obtain ⟨hacked, hexited⟩ := hinv.closed hold
    refine ⟨?_, hexit _ hexited⟩
    generalize h'.session = t at ht
    cases ht with
    | quiet _ _ _ _ hsame => exact hsame.trans hacked
    | dispatch message => exact hacked
    | fail error => exact hacked
  exited success hsup := hexit _ (hinv.exited success (hsupervisor success hsup))

theorem stepReader_touches {h h' : Host} {stop : Bool} (hs : stepReader h stop = some h') :
    Touches h.session h'.session ∧ h'.supervisor = h.supervisor ∧ h'.exitStatus = h.exitStatus := by
  unfold stepReader at hs
  split at hs
  · cases hs
    exact ⟨.refl _, rfl, rfl⟩
  · split_ifs at hs
    · cases hs
      exact ⟨.refl _, rfl, rfl⟩
    · split at hs
      · split_ifs at hs <;> cases hs <;> exact ⟨.refl _, rfl, rfl⟩
      · obtain ⟨error, -, rfl⟩ := Option.map_eq_some_iff.mp hs
        exact ⟨.refl _, rfl, rfl⟩
  · split_ifs at hs <;> cases hs <;> exact ⟨.refl _, rfl, rfl⟩
  · split_ifs at hs <;> cases hs
    · exact ⟨.refl _, rfl, rfl⟩
    · exact ⟨.fail _, rfl, rfl⟩
  · split_ifs at hs
    · cases hs
      exact ⟨.fail _, rfl, rfl⟩
    · split at hs <;> cases hs
      · exact ⟨.fail _, rfl, rfl⟩
      · exact ⟨.dispatch _, rfl, rfl⟩
  · obtain ⟨go, -, rfl⟩ := Option.map_eq_some_iff.mp hs
    exact ⟨.refl _, rfl, rfl⟩
  · obtain ⟨go, -, rfl⟩ := Option.map_eq_some_iff.mp hs
    exact ⟨.refl _, rfl, rfl⟩
  · cases hs

theorem stepWriter_touches {h h' : Host} {stop : Bool} {nanos : UInt64}
    (hs : stepWriter h stop nanos = some h') :
    Touches h.session h'.session ∧ h'.supervisor = h.supervisor ∧ h'.exitStatus = h.exitStatus := by
  unfold stepWriter at hs
  split at hs
  · split_ifs at hs
    · cases hs
      exact ⟨.quiet rfl rfl rfl rfl rfl, rfl, rfl⟩
    · split at hs <;> cases hs
      exact ⟨.quiet rfl rfl rfl rfl rfl, rfl, rfl⟩
  · split at hs
    · cases hs
      exact ⟨.fail _, rfl, rfl⟩
    · split_ifs at hs <;> cases hs
      · exact ⟨.refl _, rfl, rfl⟩
      · exact ⟨.fail _, rfl, rfl⟩
  · split_ifs at hs <;> cases hs
    · exact ⟨.refl _, rfl, rfl⟩
    · exact ⟨.fail _, rfl, rfl⟩
  · obtain ⟨go, -, rfl⟩ := Option.map_eq_some_iff.mp hs
    exact ⟨.quiet rfl rfl rfl rfl rfl, rfl, rfl⟩
  · cases hs

theorem Seen.supervisor_step {h h' : Host} (hinv : Seen h) {other : Bool}
    (hs : stepSupervisor h other = some h') : Seen h' := by
  unfold stepSupervisor at hs
  split at hs
  · split_ifs at hs
    · cases hs
      exact hinv.touches (.refl _) (fun _ => id) (by simp)
    · obtain ⟨success, hexit, rfl⟩ := Option.map_eq_some_iff.mp hs
      refine ⟨hinv.traced, hinv.closed, fun success' heq => ?_⟩
      cases heq
      exact hexit
  · rename_i hsup
    split_ifs at hs with hacked <;> cases hs
    · -- the only transition to `Closed` there is
      refine ⟨hinv.traced.spawn (by simp) (by simp), fun _ => ⟨hacked, hinv.exited true hsup⟩, ?_⟩
      intro success heq
      cases heq
    · exact hinv.touches (.fail _) (fun _ => id) (by simp [Host.supervisorTransition])
  · cases hs
    exact hinv.touches (.fail _) (fun _ => id) (by simp [Host.supervisorTransition])
  · cases hs
    exact hinv.touches (.fail _) (fun _ => id) (by simp [Host.supervisorTransition])
  · cases hs
    refine hinv.touches (.refl _) (fun success heq => ?_) (by simp)
    show h.exitStatus.or (some false) = some success
    rw [heq]
    rfl
  · split_ifs at hs <;> cases hs
    · exact hinv.touches (.refl _) (fun _ => id) (by simp)
    · exact hinv.touches (.fail _) (fun _ => id) (by simp [Host.supervisorTransition])
  · cases hs
    exact hinv.touches (.fail _) (fun _ => id) (by simp [Host.supervisorTransition])
  · obtain ⟨go, -, rfl⟩ := Option.map_eq_some_iff.mp hs
    exact hinv.touches (.refl _) (fun _ => id) (by simp)
  · cases hs
    exact hinv.touches (.quiet rfl rfl rfl rfl rfl) (fun _ => id) (by simp)
  · split_ifs at hs
    cases hs
    exact hinv.touches (.refl _) (fun _ => id) (by simp)
  · split_ifs at hs
    cases hs
    exact hinv.touches (.refl _) (fun _ => id) (by simp)
  · cases hs

theorem Seen.run {h : Host} {n : Nat} {b : Bool} {t : SessionInner} {pc pc' : Pc} (hinv : Seen h)
    (hn : h.session.threads[n]? = some pc)
    (hok : ∀ message dpc, pc = .dispatch message dpc → ¬ Refuses message dpc)
    (hs : stepThread h.session n b pc = some (t, pc')) : Seen (h.afterRun t n pc') := by
  obtain ⟨hclosed, hacked⟩ := stepThread_outcome hs
  refine ⟨hinv.traced.run hn hok hs, fun hor => ?_, hinv.exited⟩
  have hold : h.session.state = .Closed ∨ ∃ (n : Nat) (pc : TransitionPc),
      h.session.threads[n]? = some (.terminate .closed pc) := by
    rcases hor with ht | ⟨m, tpc, hm⟩
    · rcases hclosed ht with hold | ⟨tpc, rfl⟩
      · exact .inl hold
      · exact .inr ⟨n, tpc, hn⟩
    · rcases (get_set hn).mp hm with ⟨-, heq⟩ | ⟨-, hold⟩
      · right
        cases pc with
        | terminate terminal tpc' =>
          obtain ⟨p, -, hp⟩ := Option.map_eq_some_iff.mp hs
          rw [← heq] at hp
          cases hp
          exact ⟨n, tpc', hn⟩
        | call op cpc =>
          obtain ⟨p, -, hp⟩ := Option.map_eq_some_iff.mp hs
          rw [← heq] at hp
          cases hp
        | dispatch message dpc =>
          obtain ⟨p, -, hp⟩ := Option.map_eq_some_iff.mp hs
          rw [← heq] at hp
          cases hp
        | negotiate limits npc =>
          obtain ⟨p, -, hp⟩ := Option.map_eq_some_iff.mp hs
          rw [← heq] at hp
          cases hp
      · exact .inr ⟨m, tpc, hold⟩
  obtain ⟨ha, hexit⟩ := hinv.closed hold
  exact ⟨hacked ha, hexit⟩

theorem seen_step {h h' : Host} {l : Label} (hinv : Seen h) (hok : Acknowledges h l)
    (hs : step h l = some h') : Seen h' := by
  cases l with
  | call op =>
    cases hs
    refine ⟨hinv.traced.spawn (fun op' cpc heq => ?_) (by simp), fun hor => ?_, hinv.exited⟩
    · cases heq
      rfl
    · refine hinv.closed (hor.imp id ?_)
      rintro ⟨n, pc, hn⟩
      rcases new_thread hn with hold | ⟨-, heq⟩
      · exact ⟨n, pc, hold⟩
      · cases heq
  | negotiate limits =>
    cases hs
    refine ⟨hinv.traced.spawn (by simp) (by simp), fun hor => ?_, hinv.exited⟩
    refine hinv.closed (hor.imp id ?_)
    rintro ⟨n, pc, hn⟩
    rcases new_thread hn with hold | ⟨-, heq⟩
    · exact ⟨n, pc, hold⟩
    · cases heq
  | run n spurious =>
    obtain ⟨s', hrun, rfl⟩ := Option.map_eq_some_iff.mp hs
    obtain ⟨pc, hn, hrun⟩ := Option.bind_eq_some_iff.mp hrun
    obtain ⟨⟨t, pc'⟩, hthread, hrun⟩ := Option.bind_eq_some_iff.mp hrun
    cases hrun
    refine hinv.run hn ?_ hthread
    rintro message dpc rfl
    exact hok message dpc hn
  | drop n =>
    obtain ⟨s', hdrop, rfl⟩ := Option.map_eq_some_iff.mp hs
    obtain ⟨htraced, op, cpc, cpc', hn, rfl⟩ := hinv.traced.drop hdrop
    refine ⟨htraced, fun hor => hinv.closed (hor.imp id ?_), hinv.exited⟩
    rintro ⟨m, tpc, hm⟩
    rcases (get_set hn).mp hm with ⟨-, heq⟩ | ⟨-, hold⟩
    · cases heq
    · exact ⟨m, tpc, hold⟩
  | force =>
    cases hs
    exact hinv.touches (.quiet rfl rfl rfl rfl rfl) (fun _ => id) (fun _ => id)
  | respond payload =>
    simp only [step] at hs
    split_ifs at hs
    cases hs
    exact hinv.touches (.refl _) (fun _ => id) (fun _ => id)
  | closeOutput torn =>
    simp only [step] at hs
    split_ifs at hs
    cases hs
    exact hinv.touches (.refl _) (fun _ => id) (fun _ => id)
  | closeInput =>
    cases hs
    exact hinv.touches (.refl _) (fun _ => id) (fun _ => id)
  | exit success =>
    simp only [step] at hs
    split_ifs at hs with hnone
    cases hs
    refine hinv.touches (.refl _) (fun success' heq => ?_) (fun _ => id)
    rw [heq] at hnone
    cases hnone
  | waitError =>
    simp only [step] at hs
    split at hs <;> cases hs
    exact hinv.touches (.refl _) (fun _ => id) (by simp)
  | reader stop =>
    obtain ⟨ht, hsup, hexit⟩ := stepReader_touches hs
    refine hinv.touches ht ?_ ?_
    · rw [hexit]
      exact fun _ => id
    · rw [hsup]
      exact fun _ => id
  | writer stop nanos =>
    obtain ⟨ht, hsup, hexit⟩ := stepWriter_touches hs
    refine hinv.touches ht ?_ ?_
    · rw [hexit]
      exact fun _ => id
    · rw [hsup]
      exact fun _ => id
  | supervisor other => exact hinv.supervisor_step hs

theorem seen_new (config : ProcessHostConfig) : Seen (Host.new config) := by
  have hempty : ∀ n : Nat, (Host.new config).session.threads[n]? = none := fun n =>
    List.getElem?_nil
  refine ⟨⟨fun i e hmem => (by cases hmem), fun c message hmem => (by cases hmem), ?_, ?_,
    fun ha => (by cases ha)⟩, ?_, fun success heq => (by cases heq)⟩
  · intro n op pc hn
    rw [hempty] at hn
    cases hn
  · intro n message pc hn
    rw [hempty] at hn
    cases hn
  · rintro (hclosed | ⟨n, pc, hn⟩)
    · cases hclosed
    · rw [hempty] at hn
      cases hn

theorem seen_reach {config : ProcessHostConfig} {h : Host}
    (hreach : Reach step Acknowledges (Host.new config) h) : Seen h :=
  hreach.invariant (seen_new config) fun _ _ _ hinv hok hs => seen_step hinv hok hs

end Cordis.Actors
