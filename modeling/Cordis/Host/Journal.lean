import Cordis.Library.History
import Cordis.Host.Pending

/-!
# What a session allocates, sends and forgets

The session with a log of its request ids: which call took which, which messages went into the queue of
the writer, which entries left `pending`. An assertion on each thread (`Pc.Sane`) that no step of another
thread can break, and what the log knows (`Recorded`), together make an invariant.
-/

namespace Cordis.Session

open Protocol Machine Threads

/-- What is kept of a step. -/
inductive Event
  | issue (call id : Nat)
  | send (message : Message)
  | leave (id : Nat)
  deriving DecidableEq

def SessionInner.keys (s : SessionInner) : List Nat := s.pending.map Prod.fst

/-- The ids that were taken in a step of a thread. -/
def issues (s t : SessionInner) : Label → List Event
  | .run n _ => if s.nextId < t.nextId then [.issue n s.nextId] else []
  | _ => []

def note (s : SessionInner) (l : Label) (t : SessionInner) : List Event :=
  issues s t l ++ (t.outbound.drop s.outbound.length).map .send ++
    (s.keys.filter (· ∉ t.keys)).map .leave

/-- The session with its log. -/
def journal : SessionInner × List Event → Label → Option (SessionInner × List Event) :=
  recording step note

/-! ## Assertions on a thread -/

/-- How far a call is: 0 before it has registered, 2 once it has nothing more to do with its id. -/
def CallPc.stage : CallPc → Nat
  | recheck _ | enqueue _ | await _ | refuse (.registration ..) _ | unregister .. | cancel .. => 1
  | refuse .. | release _ | acknowledge _ | ended _ => 2
  | _ => 0

/-- The id of a call whose entry has been inserted. -/
def CallPc.registered? : CallPc → Option Nat
  | recheck id | enqueue id | await id | refuse (.registration id _) _ | unregister id .. | cancel id _ =>
    some id
  | _ => none

/-- The id of a call that has enqueued its message, as long as its guard may still send a `Cancel`. -/
def CallPc.guarded? (op : Operation) : CallPc → Option Nat
  | await id => if op.isInvoke then some id else none
  | refuse (.registration id true) _ | unregister id _ true | cancel id _ => some id
  | _ => none

/-- The `Invoke` of this id has been enqueued. -/
def Invoked (log : List Event) (id : UInt64) : Prop :=
  ∃ route format bytes nanos, Event.send (.Invoke id route format bytes nanos) ∈ log

/-- The entry was registered under this id by the call that took the id, and expects what it expects. -/
def Owed (s : SessionInner) (log : List Event) (entry : PendingEntry) (id : Nat) : Prop :=
  .issue entry.sender id ∈ log ∧
    ∃ (op : Operation) (pc : CallPc), s.threads[entry.sender]? = some (.call op pc) ∧ op.expected = entry.expected ∧
      1 ≤ pc.stage

/-- What holds of the call that is thread `n`. -/
structure CallPc.Sane (s : SessionInner) (log : List Event) (n : Nat) (op : Operation) (pc : CallPc) :
    Prop where
  loaded : ∀ id, pc = .exchange id → id ≠ 0 ∧ id ≠ U64_MAX
  taken : ∀ id, pc = .publish id → .issue n id ∈ log
  published : ∀ id, pc = .register id ∨ pc.registered? = some id →
    .issue n id ∈ log ∧ id ≤ s.highestIssued
  entry : ∀ id, pc.registered? = some id → id ∈ s.keys ∨ .leave id ∈ log
  invoked : ∀ id, pc.guarded? op = some id → Invoked log (UInt64.ofNat id)
  removed : ∀ id result, pc = .cancel id result → .leave id ∈ log

/-- What holds of the `dispatch_response` of a message. -/
def DispatchPc.Sane (s : SessionInner) (log : List Event) (message : Message) : DispatchPc → Prop
  | judge entry | failing _ (some entry) _ => Owed s log entry message.id.toNat
  | acknowledge entry => Owed s log entry message.id.toNat ∧ entry.expected.accepts message
  | reply entry answer _ => Owed s log entry message.id.toNat ∧
      ∀ m, answer = .ok m → m = message ∧ entry.expected.accepts message
  | _ => True

def Pc.Sane (s : SessionInner) (log : List Event) (n : Nat) : Pc → Prop
  | call op pc => pc.Sane s log n op
  | dispatch message pc => pc.Sane s log message
  | _ => True

/-- What the assertions rely on in the steps of others. -/
structure Grows (s : SessionInner) (log : List Event) (t : SessionInner) (log' : List Event) : Prop where
  log : log ⊆ log'
  highest : s.highestIssued ≤ t.highestIssued
  keys : ∀ id ∈ s.keys, id ∈ t.keys ∨ .leave id ∈ log'
  calls : ∀ (n : Nat) (op : Operation) (pc : CallPc), s.threads[n]? = some (.call op pc) →
    ∃ pc' : CallPc, t.threads[n]? = some (.call op pc') ∧ pc.stage ≤ pc'.stage

section Grows

variable {s t : SessionInner} {log log' : List Event} {n id : Nat} {entry : PendingEntry}

theorem Owed.grows (h : Owed s log entry id) (hg : Grows s log t log') : Owed t log' entry id := by
  obtain ⟨hissue, op, pc, hn, hexpected, hstage⟩ := h
  obtain ⟨pc', hn', hle⟩ := hg.calls _ _ _ hn
  exact ⟨hg.log hissue, op, pc', hn', hexpected, hstage.trans hle⟩

theorem CallPc.Sane.grows {op : Operation} {pc : CallPc} (h : pc.Sane s log n op)
    (hg : Grows s log t log') : pc.Sane t log' n op where
  loaded := h.loaded
  taken i hi := hg.log (h.taken i hi)
  published i hi := ⟨hg.log (h.published i hi).1, (h.published i hi).2.trans hg.highest⟩
  entry i hi := by
    rcases h.entry i hi with hkey | hleft
    · exact hg.keys i hkey
    · exact .inr (hg.log hleft)
  invoked i hi := by
    obtain ⟨route, format, bytes, nanos, hmem⟩ := h.invoked i hi
    exact ⟨route, format, bytes, nanos, hg.log hmem⟩
  removed i result hi := hg.log (h.removed i result hi)

theorem DispatchPc.Sane.grows {message : Message} {pc : DispatchPc} (h : pc.Sane s log message)
    (hg : Grows s log t log') : pc.Sane t log' message := by
  cases pc with
  | judge entry => exact Owed.grows h hg
  | failing error entry transition =>
    cases entry with
    | none => trivial
    | some entry => exact Owed.grows h hg
  | acknowledge entry => exact ⟨h.1.grows hg, h.2⟩
  | reply entry answer go => exact ⟨h.1.grows hg, h.2⟩
  | check | remove | done => trivial

theorem Pc.Sane.grows {pc : Pc} (h : pc.Sane s log n) (hg : Grows s log t log') :
    pc.Sane t log' n := by
  cases pc with
  | call op pc => exact CallPc.Sane.grows h hg
  | dispatch message pc => exact DispatchPc.Sane.grows h hg
  | terminate | negotiate => trivial

end Grows

/-! ## What a step touches -/

/-- Ids, entries, answers and the queue are as before. -/
structure Same (s t : SessionInner) : Prop where
  nextId : t.nextId = s.nextId
  highest : t.highestIssued = s.highestIssued
  pending : t.pending = s.pending
  replies : t.replies = s.replies
  outbound : t.outbound = s.outbound

/-- What a step of thread `n` does to what is recorded. -/
inductive Touch (s t : SessionInner) (n : Nat) : Pc → Pc → Prop
  | keep {pc pc' : Pc} (same : Same s t) : Touch s t n pc pc'
  | exchange {op : Operation} (state : t = { s with nextId := s.nextId + 1 }) :
      Touch s t n (.call op (.exchange s.nextId)) (.call op (.publish s.nextId))
  | publish {op : Operation} {id : Nat}
      (state : t = { s with highestIssued := max s.highestIssued id }) :
      Touch s t n (.call op (.publish id)) (.call op (.register id))
  | register {op : Operation} {id : Nat} (state : t = s.insertPending id ⟨n, op.expected⟩) :
      Touch s t n (.call op (.register id)) (.call op (.recheck id))
  | enqueue {op : Operation} {id : Nat}
      (state : t = { s with outbound := s.outbound ++ [op.build s.limits (UInt64.ofNat id)] }) :
      Touch s t n (.call op (.enqueue id)) (.call op (.await id))
  | cancel {op : Operation} {id : Nat} {result : Option Reply}
      (state : t = { s with outbound := s.outbound ++ [.Cancel (UInt64.ofNat id)] }) :
      Touch s t n (.call op (.cancel id result)) (.call op (.release result))
  | unregister {op : Operation} {id : Nat} {result : Option Reply} {guarded : Bool}
      (state : t = s.removePending id) :
      Touch s t n (.call op (.unregister id result guarded))
        (.call op (if guarded then .cancel id result else .release result))
  | take {message : Message} {entry : PendingEntry}
      (found : s.pending.lookup message.id.toNat = some entry)
      (state : t = s.removePending message.id.toNat) :
      Touch s t n (.dispatch message .remove) (.dispatch message (.judge entry))
  | drain {pc pc' : Pc} (error : HostError)
      (state : t = { s with
        pending := []
        replies := s.replies ++ s.pending.map fun p => (p.2.sender, .error error) }) :
      Touch s t n pc pc'
  | answer {message : Message} {entry : PendingEntry} {reply : Reply} {go : Bool}
      (state : t = { s with replies := s.replies ++ [(entry.sender, reply)] }) :
      Touch s t n (.dispatch message (.reply entry reply go)) (.dispatch message (.done (some entry) go))

theorem Same.refl (s : SessionInner) : Same s s := ⟨rfl, rfl, rfl, rfl, rfl⟩

section Touch

variable {s t : SessionInner} {n : Nat} {b : Bool}

theorem stepBegin_same (s : SessionInner) (op : Operation) : Same s (stepBegin s op).1 := by
  unfold stepBegin
  split
  all_goals first
    | exact .refl s
    | (split
       all_goals first
         | exact .refl s
         | exact ⟨rfl, rfl, rfl, rfl, rfl⟩)

theorem stepEnqueue_touch {op : Operation} {id : Nat} {pc' : CallPc}
    (h : stepEnqueue s op id = some (t, pc')) :
    Touch s t n (.call op (.enqueue id)) (.call op pc') := by
  unfold stepEnqueue at h
  split_ifs at h
  · cases h
    exact .enqueue rfl
  all_goals
    cases h
    exact .keep (.refl s)

theorem stepCall_touch {op : Operation} {pc pc' : CallPc} (h : stepCall s n op b pc = some (t, pc')) :
    Touch s t n (.call op pc) (.call op pc') := by
  cases pc with
  | begin =>
    simp only [stepCall, Option.some.injEq] at h
    have hsame := stepBegin_same s op
    rw [h] at hsame
    exact .keep hsame
  | checkState | checkAgain | allocate | recheck =>
    simp only [stepCall] at h
    split_ifs at h <;> cases h <;> exact .keep (.refl s)
  | acquire =>
    simp only [stepCall] at h
    split_ifs at h
    all_goals
      cases h
      exact .keep ⟨rfl, rfl, rfl, rfl, rfl⟩
  | exchange id =>
    simp only [stepCall] at h
    split_ifs at h with hid
    · cases h
      obtain ⟨rfl, -⟩ := hid
      exact .exchange rfl
    · cases h
      exact .keep (.refl s)
  | publish id =>
    cases h
    exact .publish rfl
  | register id =>
    cases h
    exact .register rfl
  | enqueue id => exact stepEnqueue_touch h
  | await id =>
    simp only [stepCall, stepAwait] at h
    split at h
    · cases h
      exact .keep (.refl s)
    · split_ifs at h <;> cases h <;> exact .keep (.refl s)
  | refuse held fallback =>
    simp only [stepCall] at h
    split_ifs at h
    cases h
    exact .keep (.refl s)
  | unregister id result guarded =>
    cases h
    exact .unregister rfl
  | cancel id result =>
    cases h
    unfold SessionInner.trySend
    split_ifs
    · exact .cancel rfl
    all_goals exact .keep (.refl s)
  | release result =>
    simp only [stepCall] at h
    split at h
    all_goals
      cases h
      exact .keep ⟨rfl, rfl, rfl, rfl, rfl⟩
  | acknowledge result =>
    cases h
    exact .keep ⟨rfl, rfl, rfl, rfl, rfl⟩
  | ended result => cases h

theorem stepTransition_touch {terminal : Terminal} {tpc tpc' : TransitionPc} {pc pc' : Pc}
    (h : stepTransition s terminal tpc = some (t, tpc')) : Touch s t n pc pc' := by
  cases tpc with
  | lock | load | exchange =>
    simp only [stepTransition] at h
    split_ifs at h
    all_goals
      cases h
      exact .keep ⟨rfl, rfl, rfl, rfl, rfl⟩
  | record =>
    simp only [stepTransition] at h
    split at h
    all_goals
      cases h
      exact .keep ⟨rfl, rfl, rfl, rfl, rfl⟩
  | drain =>
    cases h
    exact .drain _ rfl
  | stop | force | notify =>
    cases h
    exact .keep ⟨rfl, rfl, rfl, rfl, rfl⟩
  | done won => cases h

theorem stepDispatch_touch {message : Message} {pc pc' : DispatchPc}
    (h : stepDispatch s message pc = some (t, pc')) :
    Touch s t n (.dispatch message pc) (.dispatch message pc') := by
  cases pc with
  | check =>
    simp only [stepDispatch] at h
    split_ifs at h <;> cases h <;> exact .keep (.refl s)
  | remove =>
    simp only [stepDispatch] at h
    split at h
    · cases h
      exact .keep (.refl s)
    · rename_i entry hfound
      cases h
      exact .take hfound rfl
  | judge entry =>
    simp only [stepDispatch] at h
    repeat' split at h
    all_goals
      cases h
      exact .keep (.refl s)
  | failing error entry transition =>
    simp only [stepDispatch] at h
    split at h
    · cases h
      exact .keep (.refl s)
    · cases h
      exact .keep (.refl s)
    · obtain ⟨⟨u, tpc⟩, hstep, heq⟩ := Option.map_eq_some_iff.mp h
      cases heq
      exact stepTransition_touch hstep
  | acknowledge entry =>
    cases h
    exact .keep ⟨rfl, rfl, rfl, rfl, rfl⟩
  | reply entry answer go =>
    cases h
    exact .answer rfl
  | done => cases h

theorem stepThread_touch {pc pc' : Pc} (h : stepThread s n b pc = some (t, pc')) :
    Touch s t n pc pc' := by
  cases pc with
  | call op pc =>
    obtain ⟨⟨u, q⟩, hstep, heq⟩ := Option.map_eq_some_iff.mp h
    cases heq
    exact stepCall_touch hstep
  | dispatch message pc =>
    obtain ⟨⟨u, q⟩, hstep, heq⟩ := Option.map_eq_some_iff.mp h
    cases heq
    exact stepDispatch_touch hstep
  | terminate terminal pc =>
    obtain ⟨⟨u, q⟩, hstep, heq⟩ := Option.map_eq_some_iff.mp h
    cases heq
    exact stepTransition_touch hstep
  | negotiate limits pc =>
    obtain ⟨⟨u, q⟩, hstep, heq⟩ := Option.map_eq_some_iff.mp h
    cases heq
    cases pc with
    | check | ready =>
      simp only [stepNegotiate] at hstep
      repeat' split at hstep
      all_goals
        cases hstep
        exact .keep ⟨rfl, rfl, rfl, rfl, rfl⟩
    | forget | install =>
      cases hstep
      exact .keep ⟨rfl, rfl, rfl, rfl, rfl⟩
    | done => cases hstep

end Touch

/-! ## What a thread knows after its step -/

section Sane

variable {s t u : SessionInner} {log log' : List Event} {n : Nat} {b : Bool} {op : Operation}

/-- At this place there is nothing to know but what was known about a registration. -/
def CallPc.plain : CallPc → Bool
  | exchange _ | publish _ | register _ | cancel .. => false
  | _ => true

theorem CallPc.Sane.follow {pc pc' : CallPc} (h : pc.Sane s log n op) (hplain : pc'.plain = true)
    (hregistered : ∀ id, pc'.registered? = some id → pc.registered? = some id)
    (hguarded : ∀ id, pc'.guarded? op = some id → pc.guarded? op = some id) : pc'.Sane s log n op where
  loaded id hid := by
    subst hid
    contradiction
  taken id hid := by
    subst hid
    contradiction
  published id hid := by
    rcases hid with rfl | hid
    · contradiction
    · exact h.published id (.inr (hregistered id hid))
  entry id hid := h.entry id (hregistered id hid)
  invoked id hid := h.invoked id (hguarded id hid)
  removed id result hid := by
    subst hid
    contradiction

theorem guarded_registered {pc : CallPc} {id : Nat} (h : pc.guarded? op = some id) :
    pc.registered? = some id := by
  unfold CallPc.guarded? at h
  split at h
  · split_ifs at h
    exact h
  all_goals first
    | exact h
    | contradiction

theorem CallPc.Sane.bare {pc : CallPc} (hplain : pc.plain = true) (hnone : pc.registered? = none) :
    pc.Sane s log n op where
  loaded id hid := by
    subst hid
    contradiction
  taken id hid := by
    subst hid
    contradiction
  published id hid := by
    rcases hid with rfl | hid
    · contradiction
    · rw [hnone] at hid
      contradiction
  entry id hid := by
    rw [hnone] at hid
    contradiction
  invoked id hid := by
    rw [guarded_registered hid] at hnone
    contradiction
  removed id result hid := by
    subst hid
    contradiction

theorem stepBegin_bare (s : SessionInner) (op : Operation) :
    (stepBegin s op).2.plain = true ∧ (stepBegin s op).2.registered? = none := by
  unfold stepBegin
  split
  all_goals first
    | exact ⟨rfl, rfl⟩
    | (split <;> exact ⟨rfl, rfl⟩)

/-- What a step of call `n` adds to the log. -/
structure Noted (s t : SessionInner) (n : Nat) (log' : List Event) : Prop where
  issue : s.nextId < t.nextId → .issue n s.nextId ∈ log'
  send : ∀ m ∈ t.outbound.drop s.outbound.length, .send m ∈ log'

theorem stepEnqueue_sane {id : Nat} {pc' : CallPc} (h : (CallPc.enqueue id).Sane u log' n op)
    (hstep : stepEnqueue s op id = some (t, pc')) (hnoted : Noted s t n log') :
    pc'.Sane u log' n op := by
  unfold stepEnqueue at hstep
  split_ifs at hstep
  · cases hstep
    refine ⟨nofun, nofun, fun i hi => h.published i (.inr (hi.resolve_left nofun)), h.entry,
      fun i hi => ?_, nofun⟩
    -- the message that went into the queue is the `Invoke`
    have hsend := hnoted.send (op.build s.limits (UInt64.ofNat id)) (by simp)
    cases op with
    | invoke route format bytes =>
      cases hi
      exact ⟨_, _, _, _, hsend⟩
    | handshake | load | start | dispose | shutdown => cases hi
  all_goals
    cases hstep
    exact h.follow rfl (fun _ hid => hid) nofun

theorem stepCall_sane {pc pc' : CallPc} (h : pc.Sane s log n op)
    (hstep : stepCall s n op b pc = some (t, pc')) (hg : Grows s log u log')
    (hkeys : u.keys = t.keys) (hhighest : u.highestIssued = t.highestIssued)
    (hnoted : Noted s t n log') : pc'.Sane u log' n op := by
  have hkept := h.grows hg
  cases pc with
  | begin =>
    simp only [stepCall, Option.some.injEq] at hstep
    have hbare := stepBegin_bare s op
    rw [hstep] at hbare
    exact .bare hbare.1 hbare.2
  | checkState | checkAgain =>
    simp only [stepCall] at hstep
    split_ifs at hstep
    all_goals
      cases hstep
      exact .bare rfl rfl
  | acquire =>
    simp only [stepCall] at hstep
    split_ifs at hstep
    all_goals
      cases hstep
      exact .bare rfl rfl
  | allocate =>
    simp only [stepCall] at hstep
    split_ifs at hstep with hspent
    · cases hstep
      exact .bare rfl rfl
    · cases hstep
      refine ⟨fun id hid => ?_, by simp, by simp [CallPc.registered?], by rintro _ ⟨⟩, by rintro _ ⟨⟩, by simp⟩
      cases hid
      exact not_or.mp hspent
  | exchange id =>
    simp only [stepCall] at hstep
    split_ifs at hstep with hid
    · cases hstep
      refine ⟨by simp, fun i hi => ?_, by simp [CallPc.registered?], by rintro _ ⟨⟩, by rintro _ ⟨⟩, by simp⟩
      cases hi
      rw [← hid.1]
      exact hnoted.issue (by rw [← hid.1]; exact Nat.lt_succ_self _)
    · cases hstep
      exact .bare rfl rfl
  | publish id =>
    cases hstep
    refine ⟨by simp, by simp, fun i hi => ?_, by rintro _ ⟨⟩, by rintro _ ⟨⟩, by simp⟩
    have heq : id = i := by simpa [CallPc.registered?] using hi
    subst heq
    exact ⟨hkept.taken id rfl, hhighest ▸ Nat.le_max_right _ _⟩
  | register id =>
    cases hstep
    refine ⟨by simp, by simp, fun i hi => ?_, fun i hi => .inl ?_, by rintro _ ⟨⟩, by simp⟩
    · exact hkept.published i (by simpa [CallPc.registered?] using hi)
    · cases hi
      rw [hkeys]
      exact List.mem_cons_self
  | recheck id =>
    simp only [stepCall] at hstep
    split_ifs at hstep
    all_goals
      cases hstep
      exact hkept.follow rfl (fun _ hid => hid) (by rintro _ ⟨⟩)
  | enqueue id => exact stepEnqueue_sane hkept hstep hnoted
  | await id =>
    simp only [stepCall, stepAwait] at hstep
    split at hstep
    · cases hstep
      exact .bare rfl rfl
    · split_ifs at hstep with _ hinvoke
      · cases hstep
        exact hkept.follow rfl (fun _ hid => hid) (by simp [CallPc.guarded?, hinvoke])
      · cases hstep
        exact hkept.follow rfl (fun _ hid => hid) (by rintro _ ⟨⟩)
  | refuse held fallback =>
    simp only [stepCall] at hstep
    split_ifs at hstep
    cases hstep
    cases held with
    | nothing | permit => exact .bare rfl rfl
    | registration id guarded =>
      cases guarded with
      | false => exact hkept.follow rfl (fun _ hid => hid) (by rintro _ ⟨⟩)
      | true => exact hkept.follow rfl (fun _ hid => hid) (fun _ hid => hid)
  | unregister id result guarded =>
    cases hstep
    cases guarded with
    | false => exact .bare rfl rfl
    | true =>
      refine ⟨by simp, by simp, fun i hi => hkept.published i (.inr (hi.resolve_left (by simp))), hkept.entry,
        hkept.invoked, fun i r hi => ?_⟩
      cases hi
      rcases hkept.entry id rfl with hkey | hleft
      · rw [hkeys] at hkey
        simp [SessionInner.keys, SessionInner.removePending] at hkey
      · exact hleft
  | cancel id result =>
    cases hstep
    exact .bare rfl rfl
  | release result =>
    simp only [stepCall] at hstep
    split at hstep
    all_goals
      cases hstep
      exact .bare rfl rfl
  | acknowledge result =>
    cases hstep
    exact .bare rfl rfl
  | ended result => cases hstep

theorem stepDispatch_sane {message : Message} {pc pc' : DispatchPc} (h : pc.Sane s log message)
    (hstep : stepDispatch s message pc = some (t, pc')) (hg : Grows s log u log')
    (hpending : ∀ i e, (i, e) ∈ s.pending → Owed s log e i) : pc'.Sane u log' message := by
  cases pc with
  | check =>
    simp only [stepDispatch] at hstep
    split_ifs at hstep <;> cases hstep <;> trivial
  | remove =>
    simp only [stepDispatch] at hstep
    split at hstep
    · cases hstep
      trivial
    · rename_i entry hfound
      cases hstep
      exact (hpending _ _ (mem_of_lookup hfound)).grows hg
  | judge entry =>
    have howed := Owed.grows h hg
    simp only [stepDispatch] at hstep
    split at hstep
    · cases hstep
      exact howed
    · rename_i haccepts
      have haccepts : entry.expected.accepts message = true := by simpa using haccepts
      split at hstep
      · cases hstep
        exact howed
      · split at hstep
        · cases hstep
          exact ⟨howed, haccepts⟩
        · cases hstep
          exact ⟨howed, fun m hm => ⟨(Except.ok.inj hm).symm, haccepts⟩⟩
  | failing error entry transition =>
    have howed := DispatchPc.Sane.grows h hg
    simp only [stepDispatch] at hstep
    split at hstep
    · cases hstep
      exact ⟨howed, by simp⟩
    · cases hstep
      trivial
    · obtain ⟨⟨v, tpc⟩, -, heq⟩ := Option.map_eq_some_iff.mp hstep
      cases heq
      cases entry with
      | none => trivial
      | some entry => exact howed
  | acknowledge entry =>
    cases hstep
    exact ⟨h.1.grows hg, fun m hm => ⟨(Except.ok.inj hm).symm, h.2⟩⟩
  | reply entry answer go =>
    cases hstep
    trivial
  | done => cases hstep

theorem stepThread_sane {pc pc' : Pc} (h : pc.Sane s log n)
    (hstep : stepThread s n b pc = some (t, pc')) (hg : Grows s log u log')
    (hkeys : u.keys = t.keys) (hhighest : u.highestIssued = t.highestIssued)
    (hnoted : Noted s t n log') (hpending : ∀ i e, (i, e) ∈ s.pending → Owed s log e i) :
    pc'.Sane u log' n := by
  cases pc with
  | call op pc =>
    obtain ⟨⟨v, q⟩, hcall, heq⟩ := Option.map_eq_some_iff.mp hstep
    cases heq
    exact stepCall_sane h hcall hg hkeys hhighest hnoted
  | dispatch message pc =>
    obtain ⟨⟨v, q⟩, hdispatch, heq⟩ := Option.map_eq_some_iff.mp hstep
    cases heq
    exact stepDispatch_sane h hdispatch hg hpending
  | terminate terminal pc =>
    obtain ⟨⟨v, q⟩, -, heq⟩ := Option.map_eq_some_iff.mp hstep
    cases heq
    trivial
  | negotiate limits pc =>
    obtain ⟨⟨v, q⟩, -, heq⟩ := Option.map_eq_some_iff.mp hstep
    cases heq
    trivial

theorem dropCall_sane {pc pc' : CallPc} (h : pc.Sane s log n op) (hdrop : dropCall op pc = some pc') :
    pc'.Sane s log n op := by
  cases pc with
  | begin | checkAgain =>
    cases hdrop
    exact .bare rfl rfl
  | acquire =>
    simp only [dropCall] at hdrop
    split_ifs at hdrop
    cases hdrop
    exact .bare rfl rfl
  | enqueue id =>
    simp only [dropCall] at hdrop
    split_ifs at hdrop
    cases hdrop
    exact h.follow rfl (fun _ hid => hid) nofun
  | await id =>
    cases hdrop
    refine h.follow rfl (fun _ hid => hid) fun i hi => ?_
    cases hinvoke : op.isInvoke with
    | false =>
      rw [hinvoke] at hi
      cases hi
    | true =>
      rw [hinvoke] at hi
      simpa [CallPc.guarded?, hinvoke] using hi
  | checkState | allocate | exchange | publish | register | recheck | refuse | unregister | cancel
  | release | acknowledge | ended => cases hdrop

end Sane

/-! ## What the log knows -/

/-- A `Cancel` follows the `Invoke` of its id and the end of its entry, and is the first. -/
def Guards (before : List Event) : Event → Prop
  | .send (.Cancel id) =>
    Invoked before id ∧ .leave id.toNat ∈ before ∧ .send (.Cancel id) ∉ before
  | _ => True

/-- The ids that were taken, in order. -/
def ids (log : List Event) : List Nat :=
  log.filterMap fun x =>
    match x with
    | .issue _ id => some id
    | _ => none

/-- The session and its log agree. -/
structure Recorded (s : SessionInner) (log : List Event) : Prop where
  counter : 1 ≤ s.nextId ∧ s.nextId ≤ U64_MAX
  issued : ∀ n i, .issue n i ∈ log → i ≠ 0 ∧ i < s.nextId
  distinct : ∀ n m i, .issue n i ∈ log → .issue m i ∈ log → n = m
  once : (ids log).Nodup
  threads : ∀ (n : Nat) (pc : Pc), s.threads[n]? = some pc → pc.Sane s log n
  pending : ∀ i e, (i, e) ∈ s.pending → Owed s log e i ∧ i ≤ s.highestIssued
  replies : ∀ k m, (k, .ok m) ∈ s.replies → .issue k m.id.toNat ∈ log ∧
    ∃ (op : Operation) (pc : CallPc), s.threads[k]? = some (.call op pc) ∧ op.expected.accepts m
  sent : ∀ m, .send m ∈ log → ∃ n, .issue n m.id.toNat ∈ log ∧ m.id.toNat ≤ s.highestIssued
  queued : ∀ m ∈ s.outbound, .send m ∈ log
  left : ∀ i, .leave i ∈ log → i ∉ s.keys ∧ i ≤ s.highestIssued ∧ ∃ (n : Nat) (op : Operation)
    (pc : CallPc), .issue n i ∈ log ∧ s.threads[n]? = some (.call op pc) ∧ 1 ≤ pc.stage
  cancelled : ∀ id, .send (.Cancel id) ∈ log → ∃ (n : Nat) (op : Operation) (pc : CallPc),
    .issue n id.toNat ∈ log ∧ s.threads[n]? = some (.call op pc) ∧ 2 ≤ pc.stage
  guarded : Justified Guards log

section Note

variable {s t : SessionInner} {l : Label} {n m i : Nat} {b : Bool}

theorem issue_mem_note : .issue m i ∈ note s l t ↔
    (∃ b, l = .run m b) ∧ i = s.nextId ∧ s.nextId < t.nextId := by
  simp only [note, issues, List.mem_append, List.mem_map, reduceCtorEq, and_false, exists_false,
    or_false]
  cases l with
  | run k b =>
    simp only
    split_ifs with hlt
    · simp only [List.mem_singleton, Event.issue.injEq, Label.run.injEq, hlt, and_true]
      exact ⟨fun h => ⟨⟨b, h.1.symm, rfl⟩, h.2⟩, fun h => ⟨h.1.choose_spec.1.symm, h.2⟩⟩
    · simp [hlt]
  | call | dispatch | terminate | negotiate | drop | receive | stopWriter => simp

theorem send_mem_note {message : Message} : .send message ∈ note s l t ↔
    message ∈ t.outbound.drop s.outbound.length := by
  have hissues : Event.send message ∉ issues s t l := by
    unfold issues
    split
    · split_ifs <;> simp
    · simp
  simp only [note, List.mem_append, hissues, false_or, List.mem_map, Event.send.injEq, exists_eq_right,
    reduceCtorEq, and_false, exists_false, or_false]

theorem leave_mem_note : .leave i ∈ note s l t ↔ i ∈ s.keys ∧ i ∉ t.keys := by
  have hissues : Event.leave i ∉ issues s t l := by
    unfold issues
    split
    · split_ifs <;> simp
    · simp
  simp only [note, List.mem_append, hissues, false_or, List.mem_map, Event.leave.injEq,
    exists_eq_right, reduceCtorEq, and_false, exists_false, List.mem_filter, decide_eq_true_eq]

theorem ids_append (log log' : List Event) : ids (log ++ log') = ids log ++ ids log' :=
  List.filterMap_append

theorem ids_note (s : SessionInner) (l : Label) (t : SessionInner) :
    ids (note s l t) = [] ∨ ids (note s l t) = [s.nextId] := by
  have hsends : ids ((t.outbound.drop s.outbound.length).map .send) = [] := by
    rw [ids, List.filterMap_map]
    exact List.filterMap_eq_nil_iff.mpr fun _ _ => rfl
  have hleaves : ids ((s.keys.filter (· ∉ t.keys)).map .leave) = [] := by
    rw [ids, List.filterMap_map]
    exact List.filterMap_eq_nil_iff.mpr fun _ _ => rfl
  rw [note, ids_append, ids_append, hsends, hleaves, List.append_nil, List.append_nil]
  unfold issues
  split
  · split_ifs
    · exact .inr rfl
    · exact .inl rfl
  · exact .inl rfl

theorem mem_ids {log : List Event} : i ∈ ids log ↔ ∃ n, .issue n i ∈ log := by
  rw [ids, List.mem_filterMap]
  constructor
  · rintro ⟨x, hx, hid⟩
    cases x with
    | issue n j =>
      cases hid
      exact ⟨n, hx⟩
    | send | leave => cases hid
  · rintro ⟨n, hn⟩
    exact ⟨_, hn, rfl⟩

end Note

/-! ## The invariant -/

section Step

variable {s t : SessionInner} {log : List Event} {n i : Nat} {b : Bool} {pc pc' : Pc}

theorem touch_nextId (h : Touch s t n pc pc') :
    t.nextId = s.nextId ∨ (∃ op, pc = .call op (.exchange s.nextId)) ∧ t.nextId = s.nextId + 1 := by
  cases h with
  | keep same => exact .inl same.nextId
  | @exchange op state =>
    subst state
    exact .inr ⟨⟨op, rfl⟩, rfl⟩
  | publish state | register state | enqueue state | cancel state | unregister state | take _ state
  | drain _ state | answer state =>
    subst state
    exact .inl rfl

theorem touch_highest (h : Touch s t n pc pc') : s.highestIssued ≤ t.highestIssued := by
  cases h with
  | keep same => exact same.highest.ge
  | publish state =>
    subst state
    exact Nat.le_max_left _ _
  | exchange state | register state | enqueue state | cancel state | unregister state | take _ state
  | drain _ state | answer state =>
    subst state
    exact Nat.le_refl _

theorem touch_pending (h : Touch s t n pc pc') {e : PendingEntry} (he : (i, e) ∈ t.pending) :
    (i, e) ∈ s.pending ∨ ∃ op, pc = .call op (.register i) ∧ pc' = .call op (.recheck i) ∧
      e = ⟨n, op.expected⟩ := by
  cases h with
  | keep same => exact .inl (same.pending ▸ he)
  | @register op id state =>
    subst state
    rcases List.mem_cons.mp he with heq | he
    · cases heq
      exact .inr ⟨op, rfl, rfl, rfl⟩
    · exact .inl (List.mem_filter.mp he).1
  | unregister state | take _ state =>
    subst state
    exact .inl (List.mem_filter.mp he).1
  | drain _ state =>
    subst state
    cases he
  | exchange state | publish state | enqueue state | cancel state | answer state =>
    subst state
    exact .inl he

theorem touch_replies (h : Touch s t n pc pc') {k : Nat} {m : Message}
    (hk : (k, Except.ok m) ∈ t.replies) : (k, .ok m) ∈ s.replies ∨
      ∃ message entry go, pc = .dispatch message (.reply entry (.ok m) go) ∧ k = entry.sender := by
  cases h with
  | keep same => exact .inl (same.replies ▸ hk)
  | drain error state =>
    subst state
    rcases List.mem_append.mp hk with hk | hk
    · exact .inl hk
    · obtain ⟨p, -, heq⟩ := List.mem_map.mp hk
      cases heq
  | @answer message entry reply go state =>
    subst state
    rcases List.mem_append.mp hk with hk | hk
    · exact .inl hk
    · cases List.mem_singleton.mp hk
      exact .inr ⟨message, entry, go, rfl, rfl⟩
  | exchange state | publish state | register state | enqueue state | cancel state | unregister state
  | take _ state =>
    subst state
    exact .inl hk

/-- What a step puts into the queue. -/
inductive Enqueues (s : SessionInner) : Pc → Pc → List Message → Prop
  | nothing {pc pc' : Pc} : Enqueues s pc pc' []
  | request {op : Operation} {id : Nat} : Enqueues s (.call op (.enqueue id)) (.call op (.await id))
      [op.build s.limits (UInt64.ofNat id)]
  | cancel {op : Operation} {id : Nat} {result : Option Reply} :
      Enqueues s (.call op (.cancel id result)) (.call op (.release result))
        [.Cancel (UInt64.ofNat id)]

theorem touch_outbound (h : Touch s t n pc pc') :
    ∃ new, t.outbound = s.outbound ++ new ∧ Enqueues s pc pc' new := by
  cases h with
  | keep same => exact ⟨[], by rw [same.outbound, List.append_nil], .nothing⟩
  | enqueue state =>
    subst state
    exact ⟨_, rfl, .request⟩
  | cancel state =>
    subst state
    exact ⟨_, rfl, .cancel⟩
  | exchange state | publish state | register state | unregister state | take _ state | drain _ state
  | answer state =>
    subst state
    exact ⟨[], (List.append_nil _).symm, .nothing⟩

theorem stepCall_stage {op : Operation} {cpc cpc' : CallPc}
    (h : stepCall s n op b cpc = some (t, cpc')) : cpc.stage ≤ cpc'.stage := by
  cases cpc with
  | begin | checkState | acquire | checkAgain | allocate | exchange | publish | register =>
    exact Nat.zero_le _
  | recheck =>
    simp only [stepCall] at h
    split_ifs at h <;> cases h <;> exact Nat.le_refl _
  | enqueue =>
    simp only [stepCall, stepEnqueue] at h
    split_ifs at h <;> cases h <;> exact Nat.le_refl _
  | await =>
    simp only [stepCall, stepAwait] at h
    repeat' split at h
    all_goals first
      | contradiction
      | (cases h
         simp [CallPc.stage])
  | refuse held =>
    simp only [stepCall] at h
    split_ifs at h
    cases h
    cases held <;> exact Nat.le_refl _
  | unregister _ _ guarded =>
    cases h
    cases guarded <;> simp [CallPc.stage]
  | cancel | acknowledge =>
    cases h
    simp [CallPc.stage]
  | release =>
    simp only [stepCall] at h
    split at h <;> cases h <;> exact Nat.le_refl _
  | ended => cases h

theorem stepThread_call {op : Operation} {cpc : CallPc}
    (h : stepThread s n b (.call op cpc) = some (t, pc')) :
    ∃ cpc', pc' = .call op cpc' ∧ cpc.stage ≤ cpc'.stage := by
  obtain ⟨⟨u, q⟩, hstep, heq⟩ := Option.map_eq_some_iff.mp h
  cases heq
  exact ⟨q, rfl, stepCall_stage hstep⟩

theorem dropThread_call {op : Operation} {cpc : CallPc}
    (h : dropThread (.call op cpc) = some pc') : ∃ cpc', pc' = .call op cpc' ∧ cpc.stage ≤ cpc'.stage := by
  obtain ⟨q, hdrop, rfl⟩ := Option.map_eq_some_iff.mp h
  refine ⟨q, rfl, ?_⟩
  unfold dropCall at hdrop
  split at hdrop
  · exact Nat.zero_le _
  · exact Nat.zero_le _
  · exact Nat.zero_le _
  · split_ifs at hdrop
    cases hdrop
    exact Nat.le_refl _
  · cases hdrop
    exact Nat.le_refl _
  · cases hdrop

theorem calls_set (hn : s.threads[n]? = some pc)
    (hcall : ∀ op cpc, pc = .call op cpc → ∃ cpc', pc' = .call op cpc' ∧ cpc.stage ≤ cpc'.stage)
    (k : Nat) (op : Operation) (cpc : CallPc) (hk : s.threads[k]? = some (.call op cpc)) :
    ∃ cpc' : CallPc, (s.threads.set n pc')[k]? = some (.call op cpc') ∧ cpc.stage ≤ cpc'.stage := by
  by_cases hkn : k = n
  · subst hkn
    rw [hn] at hk
    obtain ⟨cpc', rfl, hle⟩ := hcall op cpc (Option.some.inj hk)
    exact ⟨cpc', List.getElem?_set_self (List.getElem?_eq_some_iff.mp hn).1, hle⟩
  · exact ⟨cpc, by rw [List.getElem?_set_ne (Ne.symm hkn), hk], Nat.le_refl _⟩

theorem ofNat_toNat (h : i < s.nextId) (hle : s.nextId ≤ U64_MAX) : (UInt64.ofNat i).toNat = i := by
  refine UInt64.toNat_ofNat_of_lt' (h.trans_le (hle.trans ?_))
  decide

theorem build_id (op : Operation) (limits : Limits) (id : UInt64) : (op.build limits id).id = id := by
  cases op <;> rfl

theorem build_ne_cancel (op : Operation) (limits : Limits) (id id' : UInt64) :
    op.build limits id ≠ .Cancel id' := by
  cases op <;> exact nofun

/-- What the invariant needs to know about a step of thread `n`. -/
structure Moved (s : SessionInner) (log : List Event) (u : SessionInner) (log' : List Event) (n : Nat)
    (pc pc' : Pc) : Prop where
  grows : Grows s log u log'
  was : s.threads[n]? = some pc
  now : u.threads[n]? = some pc'
  others : ∀ (m : Nat) (p : Pc), u.threads[m]? = some p → m = n ∧ p = pc' ∨ s.threads[m]? = some p
  nextId : u.nextId = s.nextId ∨ (∃ op, pc = .call op (.exchange s.nextId)) ∧ u.nextId = s.nextId + 1
  pending : ∀ i e, (i, e) ∈ u.pending → (i, e) ∈ s.pending ∨
    ∃ op, pc = .call op (.register i) ∧ pc' = .call op (.recheck i) ∧ e = ⟨n, op.expected⟩
  replies : ∀ k m, (k, Except.ok m) ∈ u.replies → (k, .ok m) ∈ s.replies ∨
    ∃ message entry go, pc = .dispatch message (.reply entry (.ok m) go) ∧ k = entry.sender
  outbound : ∃ new, u.outbound = s.outbound ++ new ∧ Enqueues s pc pc' new
  sane : pc'.Sane u log' n
  log : ∃ b, log' = log ++ note s (.run n b) u

theorem Recorded.moved (h : Recorded s log) (hn : s.threads[n]? = some pc)
    (hs : stepThread s n b pc = some (t, pc')) {u : SessionInner}
    (hu : u = { t with threads := s.threads.set n pc' }) :
    Moved s log u (log ++ note s (.run n b) u) n pc pc' := by
  have htouch := stepThread_touch hs
  have hlt : n < s.threads.length := (List.getElem?_eq_some_iff.mp hn).1
  have hthreads : u.threads = s.threads.set n pc' := by rw [hu]
  have hhighest := touch_highest htouch
  have hnext := touch_nextId htouch
  have hout := touch_outbound htouch
  have hg : Grows s log u (log ++ note s (.run n b) u) := by
    refine ⟨List.subset_append_left _ _, by rw [hu]; exact hhighest, fun i hi => ?_, ?_⟩
    · by_cases hkey : i ∈ u.keys
      · exact .inl hkey
      · exact .inr (List.mem_append_right _ (leave_mem_note.mpr ⟨hi, hkey⟩))
    · rw [hthreads]
      exact calls_set hn fun op cpc hpc => stepThread_call (hpc ▸ hs)
  have hnoted : Noted s t n (log ++ note s (.run n b) u) := by
    have heq : u.nextId = t.nextId ∧ u.outbound = t.outbound := by
      rw [hu]
      exact ⟨rfl, rfl⟩
    exact ⟨fun hlt => List.mem_append_right _ (issue_mem_note.mpr ⟨⟨b, rfl⟩, rfl, heq.1 ▸ hlt⟩),
      fun m hm => List.mem_append_right _ (send_mem_note.mpr (heq.2 ▸ hm))⟩
  refine ⟨hg, hn, ?_, fun m p hm => ?_, ?_, ?_, ?_, ?_, ?_, b, rfl⟩
  · rw [hthreads]
    exact List.getElem?_set_self hlt
  · rw [hthreads] at hm
    by_cases hmn : m = n
    · subst hmn
      rw [List.getElem?_set_self hlt] at hm
      exact .inl ⟨rfl, (Option.some.inj hm).symm⟩
    · rw [List.getElem?_set_ne (Ne.symm hmn)] at hm
      exact .inr hm
  · rw [hu]
    exact hnext
  · rw [hu]
    exact fun i e => touch_pending htouch
  · rw [hu]
    exact fun k m => touch_replies htouch
  · rw [hu]
    exact hout
  · exact stepThread_sane (h.threads n pc hn) hs hg (by rw [hu]; rfl) (by rw [hu]) hnoted
      fun i e he => (h.pending i e he).1

section Moved

variable {u : SessionInner} {log' : List Event}

theorem Recorded.issued_self (h : Recorded s log) (hm : Moved s log u log' n pc pc')
    {op : Operation} {id : Nat} (hpc : pc = .call op (.register id)) :
    .issue n id ∈ log ∧ id ≤ s.highestIssued := by
  have hsane := h.threads n pc hm.was
  subst hpc
  exact hsane.published id (.inl rfl)

theorem Moved.issue_of_mem (hm : Moved s log u log' n pc pc') {k : Nat}
    (hk : .issue k i ∈ log') : .issue k i ∈ log ∨
      k = n ∧ i = s.nextId ∧ u.nextId = s.nextId + 1 := by
  obtain ⟨b, hlog⟩ := hm.log
  rw [hlog] at hk
  rcases List.mem_append.mp hk with hk | hk
  · exact .inl hk
  · obtain ⟨⟨b', hlabel⟩, rfl, hlt⟩ := issue_mem_note.mp hk
    cases hlabel
    rcases hm.nextId with heq | ⟨-, heq⟩
    · omega
    · exact .inr ⟨rfl, rfl, heq⟩

theorem Recorded.send_of_mem (h : Recorded s log) (hm : Moved s log u log' n pc pc') {m : Message}
    (hsend : .send m ∈ log') : .send m ∈ log ∨ ∃ (op : Operation) (id : Nat),
      .issue n id ∈ log ∧ id ≤ s.highestIssued ∧
        (m = op.build s.limits (UInt64.ofNat id) ∨
          m = .Cancel (UInt64.ofNat id) ∧ (∃ result, pc = .call op (.cancel id result) ∧
            pc' = .call op (.release result))) := by
  obtain ⟨b, hlog⟩ := hm.log
  rw [hlog] at hsend
  rcases List.mem_append.mp hsend with hsend | hsend
  · exact .inl hsend
  · right
    have hmem := send_mem_note.mp hsend
    obtain ⟨new, hout, hnew⟩ := hm.outbound
    rw [hout, List.drop_left] at hmem
    have hsane := h.threads n pc hm.was
    cases hnew with
    | nothing => cases hmem
    | @request op id =>
      obtain ⟨hissue, hle⟩ := CallPc.Sane.published hsane id (.inr rfl)
      exact ⟨op, id, hissue, hle, .inl (List.mem_singleton.mp hmem)⟩
    | @cancel op id result =>
      obtain ⟨hissue, hle⟩ := CallPc.Sane.published hsane id (.inr rfl)
      exact ⟨op, id, hissue, hle, .inr ⟨List.mem_singleton.mp hmem, result, rfl, rfl⟩⟩

theorem Moved.leave_of_mem (hm : Moved s log u log' n pc pc')
    (hleave : .leave i ∈ log') : .leave i ∈ log ∨ ∃ e, (i, e) ∈ s.pending ∧ i ∉ u.keys := by
  obtain ⟨b, hlog⟩ := hm.log
  rw [hlog] at hleave
  rcases List.mem_append.mp hleave with hleave | hleave
  · exact .inl hleave
  · obtain ⟨hkey, hnot⟩ := leave_mem_note.mp hleave
    obtain ⟨⟨j, e⟩, he, rfl⟩ := List.mem_map.mp hkey
    exact .inr ⟨e, he, hnot⟩

theorem Recorded.cancel_of_mem (h : Recorded s log) (hm : Moved s log u log' n pc pc') {id : UInt64}
    (hsend : .send (.Cancel id) ∈ log') : .send (.Cancel id) ∈ log ∨
      ∃ op k result, id = UInt64.ofNat k ∧ .issue n id.toNat ∈ log ∧ pc = .call op (.cancel k result) ∧
        pc' = .call op (.release result) := by
  rcases h.send_of_mem hm hsend with hsend | ⟨op, k, hissue, -, hbuild | ⟨hcancel, result, hpc, hpc'⟩⟩
  · exact .inl hsend
  · exact absurd hbuild.symm (build_ne_cancel op _ _ id)
  · cases hcancel
    rw [ofNat_toNat (h.issued n k hissue).2 h.counter.2]
    exact .inr ⟨op, k, result, rfl, hissue, hpc, hpc'⟩

theorem Recorded.guards (h : Recorded s log) {op : Operation} {k : Nat} {result : Option Reply}
    (hn : s.threads[n]? = some (.call op (.cancel k result))) :
    Guards log (.send (.Cancel (UInt64.ofNat k))) := by
  have hsane := h.threads n _ hn
  obtain ⟨hissue, -⟩ := CallPc.Sane.published hsane k (.inr rfl)
  refine ⟨CallPc.Sane.invoked hsane k rfl, ?_, fun hsend => ?_⟩
  · rw [ofNat_toNat (h.issued n k hissue).2 h.counter.2]
    exact CallPc.Sane.removed hsane k result rfl
  · obtain ⟨m, op', pc', hissue', hm, hstage⟩ := h.cancelled _ hsend
    rw [ofNat_toNat (h.issued n k hissue).2 h.counter.2] at hissue'
    cases h.distinct n m k hissue hissue'
    rw [hn] at hm
    cases hm
    exact absurd hstage (by simp [CallPc.stage])

theorem Recorded.justified (h : Recorded s log) (hm : Moved s log u log' n pc pc') :
    Justified Guards log' := by
  obtain ⟨b, hlog⟩ := hm.log
  obtain ⟨new, hout, hnew⟩ := hm.outbound
  have hbland : (∀ m ∈ new, ∀ id, m ≠ .Cancel id) → Justified Guards log' := by
    intro hbland
    rw [hlog]
    refine h.guarded.append fun before x hx => ?_
    cases x with
    | issue | leave => trivial
    | send m =>
      have hmem := send_mem_note.mp hx
      rw [hout, List.drop_left] at hmem
      cases m with
      | Cancel id => exact absurd rfl (hbland _ hmem id)
      | Hello | HelloAck | Load | Loaded | Start | Started | Invoke | InvokeResult | Dispose | Disposed
      | Shutdown | ShutdownAck | Failure => trivial
  cases hnew with
  | nothing => exact hbland nofun
  | @request op id =>
    refine hbland fun m hm id' => ?_
    rw [List.mem_singleton.mp hm]
    exact build_ne_cancel op _ _ id'
  | @cancel op k result =>
    -- the only thing that happens in this step is the `Cancel`
    have hnext : u.nextId = s.nextId := by
      rcases hm.nextId with heq | ⟨⟨op', hpc⟩, -⟩
      · exact heq
      · cases hpc
    have hnote : note s (.run n b) u = [.send (.Cancel (UInt64.ofNat k))] ++
        (s.keys.filter (· ∉ u.keys)).map .leave := by
      rw [note, hout, List.drop_left, issues, hnext, if_neg (Nat.lt_irrefl _), List.nil_append]
      rfl
    rw [hlog, hnote, ← List.append_assoc]
    refine (h.guarded.snoc (h.guards hm.was)).append fun before x hx => ?_
    obtain ⟨i, -, rfl⟩ := List.mem_map.mp hx
    trivial

theorem Recorded.once_moved (h : Recorded s log) (hm : Moved s log u log' n pc pc') :
    (ids log').Nodup := by
  obtain ⟨b, hlog⟩ := hm.log
  rw [hlog, ids_append]
  rcases ids_note s (.run n b) u with hnone | hone
  · rw [hnone, List.append_nil]
    exact h.once
  · rw [hone]
    refine List.nodup_append.mpr ⟨h.once, List.nodup_singleton _, fun i hi j hj hij => ?_⟩
    subst hij
    obtain ⟨k, hk⟩ := mem_ids.mp hi
    rw [List.mem_singleton.mp hj] at hk
    exact absurd (h.issued k _ hk).2 (Nat.lt_irrefl _)

theorem Recorded.left_moved (h : Recorded s log) (hm : Moved s log u log' n pc pc')
    (hleave : .leave i ∈ log') : i ∉ u.keys ∧ i ≤ u.highestIssued ∧ ∃ (k : Nat) (op : Operation)
      (cpc : CallPc), .issue k i ∈ log' ∧ u.threads[k]? = some (.call op cpc) ∧ 1 ≤ cpc.stage := by
  have hg := hm.grows
  rcases hm.leave_of_mem hleave with hold | ⟨e, he, hgone⟩
  · obtain ⟨hkey, hle, k, op, cpc, hissue, hk, hstage⟩ := h.left i hold
    obtain ⟨cpc', hk', hle'⟩ := hg.calls k op cpc hk
    refine ⟨fun hmem => ?_, hle.trans hg.highest, k, op, cpc', hg.log hissue, hk', hstage.trans hle'⟩
    obtain ⟨⟨j, e⟩, he, rfl⟩ := List.mem_map.mp hmem
    rcases hm.pending j e he with hin | ⟨op', hpc, -, -⟩
    · exact hkey (List.mem_map_of_mem hin)
    · -- only the call that took the id registers it, and it has done so already
      obtain ⟨hself, -⟩ := h.issued_self hm hpc
      cases h.distinct k n j hissue hself
      have hwas := hm.was
      rw [hpc, hk] at hwas
      cases hwas
      exact absurd hstage (by simp [CallPc.stage])
  · obtain ⟨⟨hissue, op, cpc, hk, -, hstage⟩, hle⟩ := h.pending i e he
    obtain ⟨cpc', hk', hle'⟩ := hg.calls _ op cpc hk
    exact ⟨hgone, hle.trans hg.highest, _, op, cpc', hg.log hissue, hk', hstage.trans hle'⟩

theorem Recorded.counter_moved (h : Recorded s log) (hm : Moved s log u log' n pc pc') :
    1 ≤ u.nextId ∧ u.nextId ≤ U64_MAX ∧ s.nextId ≤ u.nextId := by
  obtain ⟨hone, hmax⟩ := h.counter
  rcases hm.nextId with heq | ⟨⟨op, hpc⟩, heq⟩
  · rw [heq]
    exact ⟨hone, hmax, Nat.le_refl _⟩
  · have hwas := h.threads n pc hm.was
    rw [hpc] at hwas
    have hne := (CallPc.Sane.loaded hwas _ rfl).2
    omega

theorem Recorded.next (h : Recorded s log) (hm : Moved s log u log' n pc pc') : Recorded u log' := by
  have hg := hm.grows
  obtain ⟨hone, hmax, hle⟩ := h.counter_moved hm
  refine ⟨⟨hone, hmax⟩, fun k i hk => ?_, fun k m i hk hm' => ?_, h.once_moved hm, fun m p hp => ?_,
    fun i e he => ?_, fun k m hk => ?_, fun m hsend => ?_, fun m hout => ?_,
    fun i hleave => h.left_moved hm hleave, fun id hsend => ?_, h.justified hm⟩
  · rcases hm.issue_of_mem hk with hold | ⟨-, rfl, heq⟩
    · exact ⟨(h.issued k i hold).1, (h.issued k i hold).2.trans_le hle⟩
    · have := h.counter.1
      omega
  · rcases hm.issue_of_mem hk with hold | ⟨rfl, hid, -⟩ <;>
      rcases hm.issue_of_mem hm' with hold' | ⟨rfl, hid', -⟩
    · exact h.distinct k m i hold hold'
    · exact absurd (h.issued k i hold).2 (by omega)
    · exact absurd (h.issued m i hold').2 (by omega)
    · rfl
  · rcases hm.others m p hp with ⟨rfl, rfl⟩ | hold
    · exact hm.sane
    · exact (h.threads m p hold).grows hg
  · rcases hm.pending i e he with hin | ⟨op, hpc, hpc', rfl⟩
    · exact ⟨(h.pending i e hin).1.grows hg, (h.pending i e hin).2.trans hg.highest⟩
    · obtain ⟨hself, hle⟩ := h.issued_self hm hpc
      have hnow := hm.now
      rw [hpc'] at hnow
      exact ⟨⟨hg.log hself, op, _, hnow, rfl, Nat.le_refl _⟩, hle.trans hg.highest⟩
  · rcases hm.replies k m hk with hin | ⟨message, entry, go, hpc, rfl⟩
    · obtain ⟨hissue, op, cpc, hcall, haccepts⟩ := h.replies k m hin
      obtain ⟨cpc', hcall', -⟩ := hg.calls k op cpc hcall
      exact ⟨hg.log hissue, op, cpc', hcall', haccepts⟩
    · have hsane := h.threads n pc hm.was
      rw [hpc] at hsane
      obtain ⟨howed, hok⟩ := hsane
      obtain ⟨rfl, haccepts⟩ := hok m rfl
      obtain ⟨hissue, op, cpc, hcall, hexpected, -⟩ := howed.grows hg
      exact ⟨hissue, op, cpc, hcall, hexpected ▸ haccepts⟩
  · rcases h.send_of_mem hm hsend with hold | ⟨op, id, hissue, hle', hmessage⟩
    · obtain ⟨k, hissue, hle'⟩ := h.sent m hold
      exact ⟨k, hg.log hissue, hle'.trans hg.highest⟩
    · have hid : m.id.toNat = id := by
        rw [← ofNat_toNat (h.issued n id hissue).2 h.counter.2]
        rcases hmessage with rfl | ⟨rfl, -⟩
        · rw [build_id]
        · rfl
      rw [hid]
      exact ⟨n, hg.log hissue, hle'.trans hg.highest⟩
  · obtain ⟨new, heq, -⟩ := hm.outbound
    obtain ⟨b, hlog⟩ := hm.log
    rw [hlog]
    rw [heq] at hout
    rcases List.mem_append.mp hout with hin | hin
    · exact List.mem_append_left _ (h.queued m hin)
    · refine List.mem_append_right _ (send_mem_note.mpr ?_)
      rw [heq, List.drop_left]
      exact hin
  · rcases h.cancel_of_mem hm hsend with hold | ⟨op, k, result, -, hissue, -, hpc'⟩
    · obtain ⟨k, op, cpc, hissue, hk, hstage⟩ := h.cancelled id hold
      obtain ⟨cpc', hk', hle'⟩ := hg.calls k op cpc hk
      exact ⟨k, op, cpc', hg.log hissue, hk', hstage.trans hle'⟩
    · have hnow := hm.now
      rw [hpc'] at hnow
      exact ⟨n, op, _, hg.log hissue, hnow, Nat.le_refl _⟩

end Moved

theorem note_quiet {l : Label} (hnext : t.nextId = s.nextId) (hpending : t.pending = s.pending)
    (hout : t.outbound.length ≤ s.outbound.length) : note s l t = [] := by
  have hissues : issues s t l = [] := by
    unfold issues
    split
    · rw [hnext, if_neg (Nat.lt_irrefl _)]
    · rfl
  have hkeys : t.keys = s.keys := by rw [SessionInner.keys, SessionInner.keys, hpending]
  rw [note, hissues, List.drop_eq_nil_of_le hout, hkeys]
  simp

theorem Recorded.quiet {l : Label} (h : Recorded s log) (hnext : t.nextId = s.nextId)
    (hhighest : t.highestIssued = s.highestIssued) (hpending : t.pending = s.pending)
    (hreplies : t.replies = s.replies) (hout : t.outbound <:+ s.outbound)
    (hcalls : ∀ (k : Nat) (op : Operation) (cpc : CallPc), s.threads[k]? = some (.call op cpc) →
      ∃ cpc' : CallPc, t.threads[k]? = some (.call op cpc') ∧ cpc.stage ≤ cpc'.stage)
    (hthreads : Grows s log t log → ∀ (k : Nat) (p : Pc), t.threads[k]? = some p → p.Sane t log k) :
    Recorded t (log ++ note s l t) := by
  rw [note_quiet hnext hpending hout.length_le, List.append_nil]
  have hkeys : t.keys = s.keys := by rw [SessionInner.keys, SessionInner.keys, hpending]
  have hg : Grows s log t log :=
    ⟨List.Subset.refl _, hhighest.ge, fun i hi => .inl (hkeys ▸ hi), hcalls⟩
  refine ⟨hnext ▸ h.counter, fun k i hk => hnext ▸ h.issued k i hk, h.distinct, h.once, hthreads hg,
    fun i e he => ?_, fun k m hk => ?_, fun m hm => hhighest ▸ h.sent m hm,
    fun m hm => h.queued m (hout.subset hm), fun i hi => ?_, fun id hid => ?_, h.guarded⟩
  · rw [hpending] at he
    exact ⟨(h.pending i e he).1.grows hg, hhighest ▸ (h.pending i e he).2⟩
  · rw [hreplies] at hk
    obtain ⟨hissue, op, cpc, hcall, haccepts⟩ := h.replies k m hk
    obtain ⟨cpc', hcall', -⟩ := hcalls k op cpc hcall
    exact ⟨hissue, op, cpc', hcall', haccepts⟩
  · obtain ⟨hkey, hle, k, op, cpc, hissue, hk, hstage⟩ := h.left i hi
    obtain ⟨cpc', hk', hle'⟩ := hcalls k op cpc hk
    exact ⟨hkeys ▸ hkey, hhighest ▸ hle, k, op, cpc', hissue, hk', hstage.trans hle'⟩
  · obtain ⟨k, op, cpc, hissue, hk, hstage⟩ := h.cancelled id hid
    obtain ⟨cpc', hk', hle'⟩ := hcalls k op cpc hk
    exact ⟨k, op, cpc', hissue, hk', hstage.trans hle'⟩

theorem Recorded.spawn {l : Label} (h : Recorded s log)
    (hpc : pc.Sane (s.spawn pc) log s.threads.length) :
    Recorded (s.spawn pc) (log ++ note s l (s.spawn pc)) := by
  have hold : ∀ (k : Nat) (p : Pc), s.threads[k]? = some p → (s.spawn pc).threads[k]? = some p :=
    fun k p hk => by
      rw [SessionInner.spawn, List.getElem?_append_left (List.getElem?_eq_some_iff.mp hk).1, hk]
  refine h.quiet rfl rfl rfl rfl (List.suffix_refl _)
    (fun k op cpc hk => ⟨cpc, hold k _ hk, Nat.le_refl _⟩) fun hg k p hk => ?_
  rw [SessionInner.spawn, List.getElem?_append] at hk
  split_ifs at hk with hlt
  · exact (h.threads k p hk).grows hg
  · obtain ⟨hzero, rfl⟩ := List.getElem?_eq_some_iff.mp hk
    have hlen : k = s.threads.length := by
      rw [List.length_singleton] at hzero
      omega
    subst hlen
    simpa using hpc

theorem recorded_step {l : Label} {log' : List Event} (h : Recorded s log)
    (hs : journal (s, log) l = some (t, log')) : Recorded t log' := by
  obtain ⟨hstep, hlog⟩ := recording_eq_some hs
  simp only at hstep hlog
  subst hlog
  cases l with
  | call op =>
    cases hstep
    exact h.spawn (.bare rfl rfl)
  | dispatch | terminate | negotiate =>
    cases hstep
    exact h.spawn trivial
  | run n b =>
    obtain ⟨pc, hn, hrun⟩ := Option.bind_eq_some_iff.mp hstep
    obtain ⟨⟨v, pc'⟩, hv, heq⟩ := Option.bind_eq_some_iff.mp hrun
    cases heq
    exact h.next (h.moved hn hv rfl)
  | drop n =>
    obtain ⟨pc, hn, hrun⟩ := Option.bind_eq_some_iff.mp hstep
    obtain ⟨pc', hdrop, heq⟩ := Option.bind_eq_some_iff.mp hrun
    cases heq
    refine h.quiet rfl rfl rfl rfl (List.suffix_refl _)
      (calls_set hn fun op cpc hpc => dropThread_call (hpc ▸ hdrop)) fun hg k p hk => ?_
    rcases (get_set hn).mp hk with ⟨rfl, rfl⟩ | ⟨-, hold⟩
    · cases pc with
      | call op cpc =>
        obtain ⟨cpc', hcall, rfl⟩ := Option.map_eq_some_iff.mp hdrop
        exact (dropCall_sane (h.threads k _ hn) hcall).grows hg
      | dispatch | terminate | negotiate => cases hdrop
    · exact (h.threads k p hold).grows hg
  | receive =>
    cases hstep
    exact h.quiet rfl rfl rfl rfl (List.tail_suffix _) (fun k op cpc hk => ⟨cpc, hk, Nat.le_refl _⟩)
      fun hg k p hk => (h.threads k p hk).grows hg
  | stopWriter =>
    cases hstep
    exact h.quiet rfl rfl rfl rfl (List.suffix_refl _) (fun k op cpc hk => ⟨cpc, hk, Nat.le_refl _⟩)
      fun hg k p hk => (h.threads k p hk).grows hg

theorem recorded_new (config : ProcessHostConfig) : Recorded (SessionInner.new config) [] where
  counter := ⟨Nat.le_refl 1, show 1 ≤ U64_MAX by unfold U64_MAX; omega⟩
  issued n i hi := absurd hi List.not_mem_nil
  distinct n m i hi := absurd hi List.not_mem_nil
  once := List.nodup_nil
  threads n pc hn := absurd hn (by simp [SessionInner.new])
  pending i e he := absurd he List.not_mem_nil
  replies k m hk := absurd hk List.not_mem_nil
  sent m hm := absurd hm List.not_mem_nil
  queued m hm := absurd hm List.not_mem_nil
  left i hi := absurd hi List.not_mem_nil
  cancelled i hi := absurd hi List.not_mem_nil
  guarded := justified_nil

theorem recorded_reach {config : ProcessHostConfig} {ok : SessionInner × List Event → Label → Prop}
    {j : SessionInner × List Event} (h : Reach journal ok (SessionInner.new config, []) j) :
    Recorded j.1 j.2 :=
  h.invariant (I := fun j => Recorded j.1 j.2) (recorded_new config) fun _ _ _ hi _ hs =>
    recorded_step hi hs

end Step

end Cordis.Session
