import Cordis.Host.Close
import Cordis.Host.Inflight

/-!
# The limit a frame is read with

`reader_task` computes the limit of a frame before it waits for the header. A timeline is a session with its
actors, which of the frames on the way were written after the session was `Ready`, and whether the reader has
computed its limit before that.
-/

namespace Cordis

namespace Protocol.SessionState

/-- The limits are still to be negotiated. -/
def early : SessionState → Bool
  | Created | Handshaking => true
  | _ => false

def terminal : SessionState → Bool
  | Closed | Failed => true
  | _ => false

end Protocol.SessionState

namespace Actors

open Machine Protocol Session

structure Timeline where
  host : Host
  ready : Bool := false
  /-- For each frame that the child wrote and the reader has not read: the session was `Ready` before. -/
  sent : List Bool := []
  /-- The limit of the reader was computed in a session that was not negotiated. -/
  early : Bool := true

namespace Timeline

def new (config : ProcessHostConfig) : Timeline := { host := .new config }

/-- The flags of the frames that a step leaves. -/
def sentAfter (t : Timeline) (stdout : List (List UInt8)) : Label → List Bool
  | .respond _ => t.sent ++ [t.ready]
  | _ => t.sent.drop (t.host.stdout.length - stdout.length)

def earlyAfter (t : Timeline) : Label → Bool
  | .reader _ =>
    match t.host.reader with
    | .limit => t.host.session.state.early
    | _ => t.early
  | _ => t.early

def step (t : Timeline) (l : Label) : Option Timeline :=
  (Actors.step t.host l).map fun host =>
    { host := host
      ready := t.ready || host.session.state == .Ready
      sent := t.sentAfter host.stdout l
      early := t.earlyAfter l }

/-- `apply_negotiated` is called once at most. -/
def OnceNegotiated (t : Timeline) : Label → Prop
  | .negotiate _ => ∀ pc ∈ t.host.session.threads, pc.negotiates = false
  | _ => True

instance (t : Timeline) (l : Label) : Decidable (OnceNegotiated t l) := by
  cases l <;> unfold OnceNegotiated <;> infer_instance

end Timeline

/-- `read_frame` fails at the header of the next frame. -/
def Rejects (h : Host) : Prop :=
  ∃ h' error, stepReader h false = some h' ∧ h'.reader = .readFailed error ∧ error.kind = .MessageTooLarge

/-! ## What a step does to the session -/

/-- A step that does not negotiate. -/
structure Plain (s t : SessionInner) : Prop where
  control : t.maxControlBytes = s.maxControlBytes
  limits : t.limits = s.limits
  negotiating : ∀ (n : Nat) (limits : Limits) (pc : NegotiatePc), t.threads[n]? = some (.negotiate limits pc) ↔
    s.threads[n]? = some (.negotiate limits pc)
  state : t.state = s.state ∨ s.state = .Created ∧ t.state = .Handshaking ∨
    s.state = .Ready ∧ t.state = .Draining ∨ t.state.terminal = true

/-- A step of `apply_negotiated` in thread `n`. -/
structure Negotiates (s t : SessionInner) (n : Nat) (limits : Limits) (pc pc' : NegotiatePc) (u : SessionInner) :
    Prop where
  was : s.threads[n]? = some (.negotiate limits pc)
  step : stepNegotiate s limits pc = some (u, pc')
  eq : t = { u with threads := s.threads.set n (.negotiate limits pc') }

theorem Plain.refl (s : SessionInner) : Plain s s := ⟨rfl, rfl, fun _ _ _ => Iff.rfl, .inl rfl⟩

theorem plain_spawn {s : SessionInner} {pc : Pc} (hpc : pc.negotiates = false) : Plain s (s.spawn pc) := by
  refine ⟨rfl, rfl, fun n limits npc => ?_, .inl rfl⟩
  rw [SessionInner.spawn, List.getElem?_append]
  split_ifs with hn
  · exact Iff.rfl
  · constructor
    · intro h
      have hmem := List.mem_of_getElem? h
      rw [List.mem_singleton] at hmem
      rw [← hmem] at hpc
      cases hpc
    · intro h
      exact absurd (List.getElem?_eq_some_iff.mp h).1 hn

theorem plain_set {s t : SessionInner} {n : Nat} {pc pc' : Pc} (hn : s.threads[n]? = some pc)
    (hpc : pc.negotiates = false) (hpc' : pc'.negotiates = false)
    (hcontrol : t.maxControlBytes = s.maxControlBytes) (hlimits : t.limits = s.limits)
    (hstate : t.state = s.state ∨ s.state = .Created ∧ t.state = .Handshaking ∨
      s.state = .Ready ∧ t.state = .Draining ∨ t.state.terminal = true) :
    Plain s { t with threads := s.threads.set n pc' } := by
  refine ⟨hcontrol, hlimits, fun m limits npc => ?_, hstate⟩
  show (s.threads.set n pc')[m]? = _ ↔ _
  rw [List.getElem?_set]
  split_ifs with hm hlt
  · subst hm
    rw [hn]
    constructor
    · intro h
      cases h
      cases hpc'
    · intro h
      cases h
      cases hpc
  · subst hm
    exact absurd (List.getElem?_eq_some_iff.mp hn).1 hlt
  · exact Iff.rfl

theorem stepBegin_state (s : SessionInner) (op : Session.Operation) : (stepBegin s op).1.state = s.state ∨
    s.state = .Created ∧ (stepBegin s op).1.state = .Handshaking ∨
      s.state = .Ready ∧ (stepBegin s op).1.state = .Draining := by
  unfold stepBegin
  split
  · split_ifs with hs
    · exact .inr (.inl ⟨hs, rfl⟩)
    · exact .inl rfl
  · split_ifs with hs
    · exact .inr (.inr ⟨hs, rfl⟩)
    · exact .inl rfl
  · split <;> exact .inl rfl
  · split <;> exact .inl rfl
  · exact .inl rfl

theorem stepCall_state {s t : SessionInner} {n : Nat} {op : Session.Operation} {b : Bool} {pc pc' : CallPc}
    (h : stepCall s n op b pc = some (t, pc')) : t.state = s.state ∨ s.state = .Created ∧ t.state = .Handshaking ∨
      s.state = .Ready ∧ t.state = .Draining := by
  cases pc with
  | begin =>
    have hbegin := stepBegin_state s op
    rwa [Option.some.inj h] at hbegin
  | cancel i result =>
    cases h
    unfold SessionInner.trySend
    split_ifs <;> exact .inl rfl
  | _ =>
    left
    simp only [stepCall, stepEnqueue, stepAwait] at h
    repeat' split at h
    all_goals cases h <;> rfl

theorem stepTransition_terminal {s t : SessionInner} {terminal : Terminal} {pc pc' : TransitionPc}
    (h : stepTransition s terminal pc = some (t, pc')) : t.state = s.state ∨ t.state.terminal = true := by
  rcases stepTransition_state h with hkept | hnew
  · exact .inl hkept
  · right
    rw [hnew]
    cases terminal <;> rfl

theorem stepDispatch_state {s t : SessionInner} {message : Message} {pc pc' : DispatchPc}
    (h : stepDispatch s message pc = some (t, pc')) : t.state = s.state ∨ t.state.terminal = true := by
  cases pc with
  | failing error entry transition =>
    simp only [stepDispatch] at h
    split at h
    · cases h
      exact .inl rfl
    · cases h
      exact .inl rfl
    · obtain ⟨⟨u, q⟩, hu, heq⟩ := Option.map_eq_some_iff.mp h
      cases heq
      exact stepTransition_terminal hu
  | _ =>
    left
    simp only [stepDispatch] at h
    repeat' split at h
    all_goals cases h <;> rfl

theorem stepTransition_control {s t : SessionInner} {terminal : Terminal} {pc pc' : TransitionPc}
    (h : stepTransition s terminal pc = some (t, pc')) : t.maxControlBytes = s.maxControlBytes := by
  cases pc
  all_goals
    simp only [stepTransition] at h
    repeat' split at h
    all_goals cases h <;> rfl

theorem stepThread_control {s t : SessionInner} {n : Nat} {b : Bool} {pc pc' : Pc}
    (h : stepThread s n b pc = some (t, pc')) : t.maxControlBytes = s.maxControlBytes := by
  cases pc with
  | call op pc =>
    obtain ⟨⟨u, q⟩, hu, heq⟩ := Option.map_eq_some_iff.mp h
    cases heq
    cases pc
    all_goals
      simp only [stepCall, stepBegin, stepEnqueue, stepAwait, SessionInner.trySend] at hu
      repeat' split at hu
      all_goals cases hu <;> rfl
  | dispatch message pc =>
    obtain ⟨⟨u, q⟩, hu, heq⟩ := Option.map_eq_some_iff.mp h
    cases heq
    cases pc with
    | failing error entry transition =>
      simp only [stepDispatch] at hu
      split at hu
      · cases hu
        rfl
      · cases hu
        rfl
      · obtain ⟨⟨v, q⟩, hv, heq⟩ := Option.map_eq_some_iff.mp hu
        cases heq
        exact stepTransition_control hv
    | _ =>
      simp only [stepDispatch] at hu
      repeat' split at hu
      all_goals cases hu <;> rfl
  | terminate terminal pc =>
    obtain ⟨⟨u, q⟩, hu, heq⟩ := Option.map_eq_some_iff.mp h
    cases heq
    exact stepTransition_control hu
  | negotiate limits pc =>
    obtain ⟨⟨u, q⟩, hu, heq⟩ := Option.map_eq_some_iff.mp h
    cases heq
    cases pc
    all_goals
      simp only [stepNegotiate] at hu
      repeat' split at hu
      all_goals cases hu <;> rfl

theorem session_moves {s t : SessionInner} {l : Session.Label} (h : Session.step s l = some t) : Plain s t ∨
    (∃ limits, l = .negotiate limits ∧ t = s.spawn (.negotiate limits .check)) ∨
      ∃ n limits pc pc' u, Negotiates s t n limits pc pc' u := by
  cases l with
  | call | dispatch | terminate =>
    cases h
    exact .inl (plain_spawn rfl)
  | negotiate limits =>
    cases h
    exact .inr (.inl ⟨limits, rfl, rfl⟩)
  | receive | stopWriter =>
    cases h
    exact .inl ⟨rfl, rfl, fun _ _ _ => Iff.rfl, .inl rfl⟩
  | drop n =>
    simp only [Session.step, Option.bind_eq_bind, Option.bind_eq_some_iff, Option.some.injEq] at h
    obtain ⟨pc, hn, pc', hpc', rfl⟩ := h
    cases pc with
    | call op pc =>
      obtain ⟨q, -, rfl⟩ := Option.map_eq_some_iff.mp hpc'
      exact .inl (plain_set hn rfl rfl rfl rfl (.inl rfl))
    | _ => cases hpc'
  | run n spurious =>
    simp only [Session.step, Option.bind_eq_bind, Option.bind_eq_some_iff, Option.some.injEq] at h
    obtain ⟨pc, hn, ⟨u, pc'⟩, hstep, rfl⟩ := h
    cases pc with
    | call op pc =>
      have hlimits := (stepThread_permits hstep rfl).2.1
      have hcontrol := stepThread_control hstep
      obtain ⟨⟨v, q⟩, hv, heq⟩ := Option.map_eq_some_iff.mp hstep
      cases heq
      refine .inl (plain_set hn rfl rfl hcontrol hlimits ?_)
      rcases stepCall_state hv with h | h | h
      · exact .inl h
      · exact .inr (.inl h)
      · exact .inr (.inr (.inl h))
    | dispatch message pc =>
      have hlimits := (stepThread_permits hstep rfl).2.1
      have hcontrol := stepThread_control hstep
      obtain ⟨⟨v, q⟩, hv, heq⟩ := Option.map_eq_some_iff.mp hstep
      cases heq
      refine .inl (plain_set hn rfl rfl hcontrol hlimits ?_)
      exact (stepDispatch_state hv).imp id fun h => .inr (.inr h)
    | terminate terminal pc =>
      have hlimits := (stepThread_permits hstep rfl).2.1
      have hcontrol := stepThread_control hstep
      obtain ⟨⟨v, q⟩, hv, heq⟩ := Option.map_eq_some_iff.mp hstep
      cases heq
      refine .inl (plain_set hn rfl rfl hcontrol hlimits ?_)
      exact (stepTransition_terminal hv).imp id fun h => .inr (.inr h)
    | negotiate limits pc =>
      obtain ⟨⟨v, q⟩, hv, heq⟩ := Option.map_eq_some_iff.mp hstep
      cases heq
      exact .inr (.inr ⟨n, limits, pc, q, v, hn, hv, rfl⟩)

theorem plain_of {s t : SessionInner} (hcontrol : t.maxControlBytes = s.maxControlBytes)
    (hlimits : t.limits = s.limits) (hthreads : t.threads = s.threads) (hstate : t.state = s.state) : Plain s t :=
  ⟨hcontrol, hlimits, fun _ _ _ => by rw [hthreads], .inl hstate⟩

theorem reader_plain {h h' : Host} {stop : Bool} (hs : stepReader h stop = some h') :
    Plain h.session h'.session := by
  unfold stepReader at hs
  split at hs
  case h_6 | h_7 =>
    obtain ⟨go, -, rfl⟩ := Option.map_eq_some_iff.mp hs
    exact .refl _
  case h_2 =>
    split_ifs at hs
    · cases hs
      exact .refl _
    · split at hs
      · split_ifs at hs <;> cases hs <;> exact .refl _
      · obtain ⟨error, -, rfl⟩ := Option.map_eq_some_iff.mp hs
        exact .refl _
  all_goals
    repeat' split at hs
    all_goals first
      | (cases hs; exact .refl _)
      | (cases hs; exact plain_spawn rfl)
      | cases hs

theorem writer_plain {h h' : Host} {stop : Bool} {nanos : UInt64} (hs : stepWriter h stop nanos = some h') :
    Plain h.session h'.session := by
  unfold stepWriter at hs
  split at hs
  case h_4 =>
    obtain ⟨go, -, rfl⟩ := Option.map_eq_some_iff.mp hs
    exact plain_of rfl rfl rfl rfl
  all_goals
    repeat' split at hs
    all_goals first
      | (cases hs; exact .refl _)
      | (cases hs; exact plain_spawn rfl)
      | (cases hs; exact plain_of rfl rfl rfl rfl)
      | cases hs

theorem supervisor_plain {h h' : Host} {other : Bool} (hs : stepSupervisor h other = some h') :
    Plain h.session h'.session := by
  unfold stepSupervisor at hs
  split at hs
  case h_1 =>
    split_ifs at hs
    · cases hs
      exact .refl _
    · obtain ⟨success, -, rfl⟩ := Option.map_eq_some_iff.mp hs
      exact .refl _
  case h_8 =>
    obtain ⟨go, -, rfl⟩ := Option.map_eq_some_iff.mp hs
    exact .refl _
  all_goals
    repeat' split at hs
    all_goals first
      | (cases hs; exact .refl _)
      | (cases hs; exact plain_spawn rfl)
      | (cases hs; exact plain_of rfl rfl rfl rfl)
      | cases hs

theorem host_moves {h h' : Host} {l : Label} (hs : step h l = some h') : Plain h.session h'.session ∨
    (∃ limits, l = .negotiate limits ∧ h'.session = h.session.spawn (.negotiate limits .check)) ∨
      ∃ n limits pc pc' u, Negotiates h.session h'.session n limits pc pc' u := by
  have hon : ∀ l', onSession h l' = some h' → Plain h.session h'.session ∨
      (∃ limits, l' = .negotiate limits ∧ h'.session = h.session.spawn (.negotiate limits .check)) ∨
        ∃ n limits pc pc' u, Negotiates h.session h'.session n limits pc pc' u := by
    intro l' hl
    obtain ⟨t, ht, rfl⟩ := Option.map_eq_some_iff.mp hl
    exact session_moves ht
  cases l with
  | call op =>
    rcases hon _ hs with hplain | ⟨_, hl, _⟩ | hn
    · exact .inl hplain
    · cases hl
    · exact .inr (.inr hn)
  | negotiate limits =>
    rcases hon _ hs with hplain | ⟨limits', hl, heq⟩ | hn
    · exact .inl hplain
    · cases hl
      exact .inr (.inl ⟨_, rfl, heq⟩)
    · exact .inr (.inr hn)
  | run n spurious =>
    rcases hon _ hs with hplain | ⟨_, hl, _⟩ | hn
    · exact .inl hplain
    · cases hl
    · exact .inr (.inr hn)
  | drop n =>
    rcases hon _ hs with hplain | ⟨_, hl, _⟩ | hn
    · exact .inl hplain
    · cases hl
    · exact .inr (.inr hn)
  | force =>
    cases hs
    exact .inl ⟨rfl, rfl, fun _ _ _ => Iff.rfl, .inl rfl⟩
  | respond | closeOutput | exit =>
    simp only [step] at hs
    split_ifs at hs
    cases hs
    exact .inl (.refl _)
  | closeInput =>
    cases hs
    exact .inl (.refl _)
  | waitError =>
    simp only [step] at hs
    split at hs
    · cases hs
      exact .inl (.refl _)
    · cases hs
  | reader stop => exact .inl (reader_plain hs)
  | writer stop nanos => exact .inl (writer_plain hs)
  | supervisor other => exact .inl (supervisor_plain hs)

/-! ## What a step does to the reader -/

theorem reader_moves {h h' : Host} {stop : Bool} (hs : stepReader h stop = some h') :
    h.reader = .limit ∧ h' = { h with reader := .read (readerLimit h.session) } ∨
      h.reader ≠ .limit ∧ (∀ limit, h'.reader ≠ .read limit) ∧
        (h'.stdout = h.stdout ∨ ∃ payload, h.stdout = payload :: h'.stdout) := by
  unfold stepReader at hs
  split at hs
  case h_1 hpc =>
    cases hs
    exact .inl ⟨hpc, rfl⟩
  case h_6 hpc =>
    obtain ⟨go, -, rfl⟩ := Option.map_eq_some_iff.mp hs
    refine .inr ⟨by simp [hpc], fun limit => ?_, .inl rfl⟩
    cases go <;> simp
  case h_7 hpc =>
    obtain ⟨go, -, rfl⟩ := Option.map_eq_some_iff.mp hs
    exact .inr ⟨by simp [hpc], nofun, .inl rfl⟩
  case h_2 hpc =>
    split_ifs at hs
    · cases hs
      exact .inr ⟨by simp [hpc], nofun, .inl rfl⟩
    · split at hs
      · rename_i hstdout
        split_ifs at hs
        · cases hs
          exact .inr ⟨by simp [hpc], nofun, .inl rfl⟩
        · cases hs
          exact .inr ⟨by simp [hpc], nofun, .inr ⟨_, hstdout⟩⟩
      · obtain ⟨error, -, rfl⟩ := Option.map_eq_some_iff.mp hs
        exact .inr ⟨by simp [hpc], nofun, .inl rfl⟩
  all_goals
    rename_i hpc
    repeat' split at hs
    all_goals first
      | (cases hs; exact .inr ⟨by simp [hpc], nofun, .inl rfl⟩)
      | cases hs

theorem others_reader {h h' : Host} {l : Label} (hl : ∀ stop, l ≠ .reader stop) (hs : step h l = some h') :
    h'.reader = h.reader ∧ ((∀ payload, l ≠ .respond payload) ∧ h'.stdout = h.stdout ∨
      ∃ payload, l = .respond payload ∧ h'.stdout = h.stdout ++ [payload]) := by
  cases l with
  | call | negotiate | run | drop =>
    simp only [step, onSession] at hs
    obtain ⟨t, -, rfl⟩ := Option.map_eq_some_iff.mp hs
    exact ⟨rfl, .inl ⟨by simp, rfl⟩⟩
  | force | closeInput =>
    cases hs
    exact ⟨rfl, .inl ⟨by simp, rfl⟩⟩
  | respond payload =>
    simp only [step] at hs
    split_ifs at hs
    cases hs
    exact ⟨rfl, .inr ⟨payload, rfl, rfl⟩⟩
  | closeOutput | exit =>
    simp only [step] at hs
    split_ifs at hs
    cases hs
    exact ⟨rfl, .inl ⟨by simp, rfl⟩⟩
  | waitError =>
    simp only [step] at hs
    split at hs
    · cases hs
      exact ⟨rfl, .inl ⟨by simp, rfl⟩⟩
    · cases hs
  | reader stop => exact absurd rfl (hl stop)
  | writer stop nanos =>
    simp only [step] at hs
    unfold stepWriter at hs
    split at hs
    case h_4 =>
      obtain ⟨go, -, rfl⟩ := Option.map_eq_some_iff.mp hs
      exact ⟨rfl, .inl ⟨by simp, rfl⟩⟩
    all_goals
      repeat' split at hs
      all_goals first
        | (cases hs; exact ⟨rfl, .inl ⟨by simp, rfl⟩⟩)
        | cases hs
  | supervisor other =>
    simp only [step] at hs
    unfold stepSupervisor at hs
    split at hs
    case h_1 =>
      split_ifs at hs
      · cases hs
        exact ⟨rfl, .inl ⟨by simp, rfl⟩⟩
      · obtain ⟨success, -, rfl⟩ := Option.map_eq_some_iff.mp hs
        exact ⟨rfl, .inl ⟨by simp, rfl⟩⟩
    case h_8 =>
      obtain ⟨go, -, rfl⟩ := Option.map_eq_some_iff.mp hs
      exact ⟨rfl, .inl ⟨by simp, rfl⟩⟩
    all_goals
      repeat' split at hs
      all_goals first
        | (cases hs; exact ⟨rfl, .inl ⟨by simp, rfl⟩⟩)
        | cases hs

/-! ## The invariant -/

/-- Where the limits of a session come from. -/
structure Agreed (s : SessionInner) (ready : Bool) : Prop where
  single : ∀ (n m : Nat) (limits limits' : Limits) (pc pc' : NegotiatePc),
    s.threads[n]? = some (.negotiate limits pc) → s.threads[m]? = some (.negotiate limits' pc') → n = m
  installed : ∀ (n : Nat) (limits : Limits), s.threads[n]? = some (.negotiate limits .ready) → s.limits = limits
  done : ∀ (n : Nat) (limits : Limits), s.threads[n]? = some (.negotiate limits (.done true)) →
    s.limits = limits ∧ ready = true
  begun : ready = true → ∃ (n : Nat) (limits : Limits), s.threads[n]? = some (.negotiate limits (.done true))
  before : ready = false → s.state.early = true ∨ s.state.terminal = true
  after : ready = true → s.state.early = false

theorem ready_not {state : SessionState} (h : state.early = true ∨ state.terminal = true) : state ≠ .Ready := by
  rintro rfl
  rcases h with h | h <;> cases h

variable {s t : SessionInner} {ready : Bool}

theorem Agreed.plain (ha : Agreed s ready) (h : Plain s t) : Agreed t (ready || t.state == .Ready) := by
  have hready : (ready || t.state == .Ready) = ready := by
    cases ready with
    | true => rfl
    | false =>
      have hbefore := ha.before rfl
      refine beq_eq_false_iff_ne.mpr fun hnow => ?_
      rcases h.state with hs | ⟨-, hs⟩ | ⟨-, hs⟩ | hs
      · exact ready_not hbefore (hs ▸ hnow)
      · rw [hnow] at hs
        cases hs
      · rw [hnow] at hs
        cases hs
      · rw [hnow] at hs
        cases hs
  rw [hready]
  refine ⟨fun n m L L' pc pc' hn hm =>
      ha.single n m L L' pc pc' ((h.negotiating ..).mp hn) ((h.negotiating ..).mp hm),
    fun n L hn => h.limits.trans (ha.installed n L ((h.negotiating ..).mp hn)), fun n L hn => ?_, fun hr => ?_,
    fun hr => ?_, fun hr => ?_⟩
  · obtain ⟨hlimits, hr⟩ := ha.done n L ((h.negotiating ..).mp hn)
    exact ⟨h.limits.trans hlimits, hr⟩
  · obtain ⟨n, L, hn⟩ := ha.begun hr
    exact ⟨n, L, (h.negotiating ..).mpr hn⟩
  · rcases h.state with hs | ⟨-, hs⟩ | ⟨hs, -⟩ | hs
    · exact hs ▸ ha.before hr
    · rw [hs]
      exact .inl rfl
    · exact absurd hs (ready_not (ha.before hr))
    · exact .inr hs
  · rcases h.state with hs | ⟨hs, -⟩ | ⟨-, hs⟩ | hs
    · exact hs ▸ ha.after hr
    · have hnot := ha.after hr
      rw [hs] at hnot
      cases hnot
    · rw [hs]
      rfl
    · cases hstate : t.state <;> simp_all [SessionState.early, SessionState.terminal]

theorem Agreed.spawn (ha : Agreed s ready) (limits : Limits) (honce : ∀ pc ∈ s.threads, pc.negotiates = false) :
    Agreed (s.spawn (.negotiate limits .check)) (ready || s.state == .Ready) := by
  have hold : ∀ (n : Nat) (L : Limits) (pc : NegotiatePc),
      (s.spawn (.negotiate limits .check)).threads[n]? = some (.negotiate L pc) →
        n = s.threads.length ∧ pc = .check := by
    intro n L pc hn
    rw [SessionInner.spawn, List.getElem?_append] at hn
    split_ifs at hn with hlt
    · have hbad := honce _ (List.mem_of_getElem? hn)
      cases hbad
    · have hlen := (List.getElem?_eq_some_iff.mp hn).1
      have hmem := List.mem_singleton.mp (List.mem_of_getElem? hn)
      cases hmem
      refine ⟨?_, rfl⟩
      rw [List.length_singleton] at hlen
      omega
  have hready : ready = false := by
    cases hr : ready with
    | false => rfl
    | true =>
      obtain ⟨n, L, hn⟩ := ha.begun hr
      have hbad := honce _ (List.mem_of_getElem? hn)
      cases hbad
  have hnot : (ready || s.state == .Ready) = false := by
    rw [hready]
    exact beq_eq_false_iff_ne.mpr (ready_not (ha.before hready))
  rw [hnot]
  refine ⟨fun n m L L' pc pc' hn hm => (hold n L pc hn).1.trans (hold m L' pc' hm).1.symm, fun n L hn => ?_,
    fun n L hn => ?_, by simp, fun _ => ha.before hready, by simp⟩
  · cases (hold n L _ hn).2
  · cases (hold n L _ hn).2

theorem stepNegotiate_cases {u : SessionInner} {limits : Limits} {pc pc' : NegotiatePc}
    (h : stepNegotiate s limits pc = some (u, pc')) :
    u.state = s.state ∧ pc' ≠ .done true ∧ (pc' = .ready → u.limits = limits) ∨
      pc = .ready ∧ s.state = .Handshaking ∧ u.state = .Ready ∧ u.limits = s.limits ∧ pc' = .done true := by
  cases pc with
  | check =>
    left
    simp only [stepNegotiate] at h
    repeat' split at h
    all_goals
      cases h
      exact ⟨rfl, by simp, by simp⟩
  | forget shrink =>
    left
    simp only [stepNegotiate] at h
    cases h
    refine ⟨rfl, ?_, ?_⟩ <;> split_ifs <;> simp
  | install =>
    left
    cases h
    exact ⟨rfl, by simp, fun _ => rfl⟩
  | ready =>
    simp only [stepNegotiate] at h
    split_ifs at h with hstate
    · cases h
      exact .inr ⟨rfl, hstate, rfl, rfl, rfl⟩
    · cases h
      exact .inl ⟨rfl, by simp, by simp⟩
  | done accepted => cases h

theorem Agreed.negotiates (ha : Agreed s ready) {n : Nat} {limits : Limits} {pc pc' : NegotiatePc}
    {u : SessionInner} (h : Negotiates s t n limits pc pc' u) :
    Agreed t (ready || t.state == .Ready) ∧ ready = false ∧
      (t.state = s.state ∨ s.state = .Handshaking ∧ t.state = .Ready) := by
  obtain ⟨hwas, hstep, rfl⟩ := h
  have hready : ready = false := by
    cases hr : ready with
    | false => rfl
    | true =>
      obtain ⟨m, L, hm⟩ := ha.begun hr
      cases ha.single n m _ _ _ _ hwas hm
      rw [hwas] at hm
      cases hm
      cases hstep
  have hold : ∀ (m : Nat) (L : Limits) (q : NegotiatePc),
      (s.threads.set n (.negotiate limits pc'))[m]? = some (.negotiate L q) → m = n ∧ L = limits ∧ q = pc' := by
    intro m L q hm
    rw [List.getElem?_set] at hm
    split_ifs at hm with hmn hlt
    · cases hm
      exact ⟨hmn.symm, rfl, rfl⟩
    · exact absurd (ha.single m n _ _ _ _ hm hwas).symm hmn
  have hlt := (List.getElem?_eq_some_iff.mp hwas).1
  rcases stepNegotiate_cases hstep with ⟨hstate, hdone, hinstalled⟩ | ⟨rfl, hstate, hstate', hlimits, rfl⟩
  · have hnot : (ready || u.state == .Ready) = false := by
      rw [hready, hstate]
      exact beq_eq_false_iff_ne.mpr (ready_not (ha.before hready))
    refine ⟨?_, hready, .inl hstate⟩
    rw [hnot]
    refine ⟨fun k m L L' q q' hk hm => (hold k L q hk).1.trans (hold m L' q' hm).1.symm, fun m L hm => ?_,
      fun m L hm => ?_, nofun, fun _ => ?_, nofun⟩
    · obtain ⟨-, rfl, heq⟩ := hold m L _ hm
      exact hinstalled heq.symm
    · exact absurd (hold m L _ hm).2.2.symm hdone
    · rw [hstate]
      exact ha.before hready
  · have hnow : (ready || u.state == .Ready) = true := by
      rw [hstate']
      exact Bool.or_true _
    refine ⟨?_, hready, .inr ⟨hstate, hstate'⟩⟩
    rw [hnow]
    refine ⟨fun k m L L' q q' hk hm => (hold k L q hk).1.trans (hold m L' q' hm).1.symm, fun m L hm => ?_,
      fun m L hm => ?_, fun _ => ⟨n, limits, List.getElem?_set_self hlt⟩, nofun, fun _ => ?_⟩
    · cases (hold m L _ hm).2.2
    · obtain ⟨-, rfl, -⟩ := hold m L _ hm
      exact ⟨hlimits.trans (ha.installed n _ hwas), rfl⟩
    · show u.state.early = false
      rw [hstate']
      rfl

/-- The limit that the reader waits with. -/
def Timeline.Computed (t : Timeline) (limit : Nat) : Prop :=
  if t.early then limit = min ABSOLUTE_HANDSHAKE_FRAME_LIMIT t.host.session.maxControlBytes
  else if t.ready then limit = t.host.session.limits.frame
  else t.host.session.state.terminal = true

/-- What holds of a timeline. -/
structure Timeline.Timely (config : ProcessHostConfig) (t : Timeline) : Prop where
  agreed : Agreed t.host.session t.ready
  control : t.host.session.maxControlBytes = config.maxControlBytes
  matched : t.sent.length = t.host.stdout.length
  sent : true ∈ t.sent → t.ready = true
  reader : ∀ limit, t.host.reader = .read limit → t.Computed limit

namespace Timeline

variable {config : ProcessHostConfig} {x y : Timeline} {l : Label}

theorem timely_new : Timely config (new config) where
  agreed := ⟨nofun, nofun, nofun, nofun, fun _ => .inl rfl, nofun⟩
  control := rfl
  matched := rfl
  sent := nofun
  reader := nofun

theorem step_agreed (ht : Timely config x) (hok : OnceNegotiated x l) (hs : x.step l = some y) :
    Agreed y.host.session y.ready ∧ y.host.session.maxControlBytes = x.host.session.maxControlBytes ∧
      (x.ready = true → y.host.session.limits = x.host.session.limits) ∧
      (x.host.session.state.terminal = true → y.host.session.state.terminal = true ∧ y.ready = x.ready) := by
  obtain ⟨host, hhost, rfl⟩ := Option.map_eq_some_iff.mp hs
  have hkept : x.host.session.state.terminal = true → host.session.state = x.host.session.state →
      host.session.state.terminal = true ∧ (x.ready || host.session.state == .Ready) = x.ready := by
    intro hterminal heq
    rw [heq, beq_eq_false_iff_ne.mpr (ready_not (.inr hterminal))]
    exact ⟨hterminal, Bool.or_false _⟩
  rcases host_moves hhost with hplain | ⟨limits, rfl, heq⟩ | ⟨n, limits, pc, pc', u, hn⟩
  · refine ⟨ht.agreed.plain hplain, hplain.control, fun _ => hplain.limits, fun hterminal => ?_⟩
    rcases hplain.state with h | ⟨h, -⟩ | ⟨h, -⟩ | h
    · exact hkept hterminal h
    · rw [h] at hterminal
      cases hterminal
    · rw [h] at hterminal
      cases hterminal
    · refine ⟨h, ?_⟩
      rw [beq_eq_false_iff_ne.mpr (ready_not (.inr h))]
      exact Bool.or_false _
  · have hspawn := ht.agreed.spawn limits hok
    simp only [heq]
    exact ⟨hspawn, rfl, fun _ => rfl, fun hterminal => heq ▸ hkept hterminal (heq ▸ rfl)⟩
  · obtain ⟨hagreed, hready, hstate⟩ := ht.agreed.negotiates hn
    refine ⟨hagreed, ?_, fun h => ?_, fun hterminal => ?_⟩
    · obtain ⟨hwas, hstep, heq⟩ := hn
      have hthread : stepThread x.host.session n false (.negotiate limits pc) =
          some (u, .negotiate limits pc') := by
        simp only [stepThread, hstep]
        rfl
      simp only [heq]
      exact stepThread_control hthread
    · rw [hready] at h
      cases h
    · rcases hstate with h | ⟨h, -⟩
      · exact hkept hterminal h
      · rw [h] at hterminal
        cases hterminal

theorem timely_step (ht : Timely config x) (hok : OnceNegotiated x l) (hs : x.step l = some y) :
    Timely config y := by
  obtain ⟨hagreed, hcontrol, hlimits, hterminal⟩ := step_agreed ht hok hs
  obtain ⟨host, hhost, rfl⟩ := Option.map_eq_some_iff.mp hs
  have hlater : x.ready = true → (x.ready || host.session.state == .Ready) = true := fun h => by rw [h]; rfl
  -- a limit that was computed is still what it was
  have hstays : ∀ limit, x.host.reader = .read limit → x.early = true ∧
      limit = min ABSOLUTE_HANDSHAKE_FRAME_LIMIT host.session.maxControlBytes ∨ x.early = false ∧
        if (x.ready || host.session.state == .Ready) then limit = host.session.limits.frame
        else host.session.state.terminal = true := by
    intro limit hreader
    have hold := ht.reader limit hreader
    unfold Computed at hold
    simp only at hcontrol
    split_ifs at hold with hearly hready
    · exact .inl ⟨hearly, hcontrol ▸ hold⟩
    · refine .inr ⟨Bool.eq_false_of_not_eq_true hearly, ?_⟩
      rw [if_pos (hlater hready)]
      exact hold.trans (congrArg Limits.frame (hlimits hready).symm)
    · refine .inr ⟨Bool.eq_false_of_not_eq_true hearly, ?_⟩
      obtain ⟨hnow, hsame⟩ := hterminal hold
      have hsame : (x.ready || host.session.state == .Ready) = x.ready := hsame
      rw [hsame, if_neg hready]
      exact hnow
  by_cases hl : ∃ stop, l = .reader stop
  · obtain ⟨stop, rfl⟩ := hl
    rcases reader_moves hhost with ⟨hpc, rfl⟩ | ⟨hpc, hnot, hstdout⟩
    · refine ⟨hagreed, hcontrol.trans ht.control, ?_, fun h => hlater (ht.sent (List.mem_of_mem_drop h)),
        fun limit hreader => ?_⟩
      · simp only [sentAfter, Nat.sub_self, List.drop_zero]
        exact ht.matched
      · cases hreader
        unfold Computed readerLimit
        simp only [earlyAfter, hpc]
        by_cases hearly : x.host.session.state = .Created ∨ x.host.session.state = .Handshaking
        · have hflag : x.host.session.state.early = true := by rcases hearly with h | h <;> rw [h] <;> rfl
          rw [if_pos hflag, if_pos hearly]
        · have hflag : ¬ x.host.session.state.early = true := by
            intro h
            apply hearly
            cases hstate : x.host.session.state <;> simp_all [SessionState.early]
          rw [if_neg hflag, if_neg hearly]
          split_ifs with hready
          · rfl
          · have hnot : x.ready = false := by
              cases hr : x.ready with
              | false => rfl
              | true => exact absurd (hlater hr) hready
            exact (ht.agreed.before hnot).resolve_left hflag
    · refine ⟨hagreed, hcontrol.trans ht.control, ?_, fun h => hlater (ht.sent (List.mem_of_mem_drop h)),
        fun limit hreader => absurd hreader (hnot limit)⟩
      have hmatched := ht.matched
      simp only [sentAfter, List.length_drop]
      rcases hstdout with heq | ⟨payload, heq⟩
      · rw [heq]
        omega
      · rw [heq, List.length_cons] at hmatched ⊢
        omega
  · have hl : ∀ stop, l ≠ .reader stop := fun stop heq => hl ⟨stop, heq⟩
    obtain ⟨hreader, hstdout⟩ := others_reader hl hhost
    have hearly : x.earlyAfter l = x.early := by
      cases l with
      | reader stop => exact absurd rfl (hl stop)
      | _ => rfl
    have hcomputed : ∀ limit, host.reader = .read limit → if x.early then
        limit = min ABSOLUTE_HANDSHAKE_FRAME_LIMIT host.session.maxControlBytes
      else if (x.ready || host.session.state == .Ready) then limit = host.session.limits.frame
      else host.session.state.terminal = true := by
      intro limit hlimit
      rcases hstays limit (hreader ▸ hlimit) with ⟨htrue, h⟩ | ⟨hfalse, h⟩
      · rwa [if_pos htrue]
      · rwa [if_neg (by rw [hfalse]; nofun)]
    refine ⟨hagreed, hcontrol.trans ht.control, ?_, fun h => hlater ?_, fun limit hlimit => ?_⟩
    · have hmatched := ht.matched
      rcases hstdout with ⟨hnot, heq⟩ | ⟨payload, rfl, heq⟩
      · have hsent : x.sentAfter host.stdout l = x.sent := by
          unfold sentAfter
          rw [heq, Nat.sub_self]
          split
          · exact absurd rfl (hnot _)
          · exact List.drop_zero
        show (x.sentAfter host.stdout l).length = host.stdout.length
        rw [hsent, heq]
        exact hmatched
      · simp only [sentAfter, heq, List.length_append, hmatched]
        rfl
    · simp only [sentAfter] at h
      split at h
      · rcases List.mem_append.mp h with hold | hnew
        · exact ht.sent hold
        · exact (List.mem_singleton.mp hnew).symm
      · exact ht.sent (List.mem_of_mem_drop h)
    · unfold Computed
      simp only [hearly]
      exact hcomputed limit hlimit

theorem timely_reach (h : Reach step OnceNegotiated (new config) x) : Timely config x :=
  h.invariant timely_new fun _ _ _ ht hok hs => timely_step ht hok hs

/-- The header is checked against the limit that the reader waits with. -/
theorem rejects_iff {h : Host} {limit : Nat} {payload : List UInt8} {rest : List (List UInt8)}
    (hreader : h.reader = .read limit) (hstdout : h.stdout = payload :: rest) :
    Rejects h ↔ limit < payload.length := by
  unfold Rejects stepReader
  simp only [hreader, hstdout]
  constructor
  · rintro ⟨h', error, hs, hfailed, hkind⟩
    by_contra hle
    rw [if_neg (by simp), if_neg hle] at hs
    cases hs
    cases hfailed
  · intro hlt
    refine ⟨{ h with reader := .readFailed ⟨.MessageTooLarge, "frame length exceeds current hard limit"⟩ }, _, ?_,
      rfl, rfl⟩
    rw [if_neg (by simp), if_pos hlt, hstdout]

/-- **The negotiated frame limit is enforced** on a frame that is sent in a session that was `Ready` just when
the reader had not computed its limit before, or that limit decides the same. -/
theorem frame_limit_enforced_iff (h : Reach step OnceNegotiated (new config) x) {n : Nat} {limits : Limits}
    (hn : x.host.session.threads[n]? = some (.negotiate limits (.done true))) {limit : Nat}
    {payload : List UInt8} {rest : List (List UInt8)} (hreader : x.host.reader = .read limit)
    (hstdout : x.host.stdout = payload :: rest) (hsent : x.sent.head? = some true) :
    (Rejects x.host ↔ limits.frame < payload.length) ↔ (x.early = false ∨
      (min ABSOLUTE_HANDSHAKE_FRAME_LIMIT config.maxControlBytes < payload.length ↔
        limits.frame < payload.length)) := by
  have ht := timely_reach h
  obtain ⟨hlimits, -⟩ := ht.agreed.done n limits hn
  have hready : x.ready = true := ht.sent (List.mem_of_mem_head? hsent)
  have hcomputed := ht.reader limit hreader
  rw [rejects_iff hreader hstdout]
  unfold Computed at hcomputed
  cases hearly : x.early with
  | true =>
    rw [if_pos hearly, ht.control] at hcomputed
    rw [hcomputed]
    simp
  | false =>
    rw [if_neg (by rw [hearly]; nofun), if_pos hready, hlimits] at hcomputed
    rw [hcomputed]
    simp

end Timeline

/-- The handshake, up to the `HelloAck` that the reader has dispatched. -/
def helloRun : List Label :=
  .call .handshake :: sendRun 0 ++
    receiveRun
      (.HelloAck 1 PROTOCOL_MAJOR PROTOCOL_MINOR SUPPORTED_FEATURES REQUIRED_FEATURES ⟨9, 9, 9, 9, 9⟩) 1 4 ++
    List.replicate 2 (.run 0 false)

/-- The limits are negotiated. -/
def readyRun : List Label :=
  .negotiate (negotiate ProcessHostConfig.default.limits ⟨9, 9, 9, 9, 9⟩) :: List.replicate 4 (.run 2 false)

/-- A frame of ten bytes. -/
def tooLong : List UInt8 := List.replicate 10 0

set_option maxRecDepth 2000 in
/-- The limit is computed after the negotiation, and a frame that is too long is rejected. -/
theorem Timeline.frame_limit_enforced_iff_ready :
    ∃ (x : Timeline) (limits : Limits), Reach step OnceNegotiated (new .default) x ∧ limits.frame = 9 ∧
      x.host.stdout = [tooLong] ∧ (Rejects x.host ↔ limits.frame < tooLong.length) := by
  obtain ⟨x, hx⟩ : ∃ x, runIf step OnceNegotiated (new .default)
      (helloRun ++ readyRun ++ [.reader false, .respond tooLong]) = some x := ⟨_, rfl⟩
  obtain ⟨hn, hreader, hstdout, hsent, hearly⟩ :
      x.host.session.threads[2]? =
        some (.negotiate (negotiate ProcessHostConfig.default.limits ⟨9, 9, 9, 9, 9⟩) (.done true)) ∧
      x.host.reader = .read 9 ∧ x.host.stdout = [tooLong] ∧ x.sent.head? = some true ∧ x.early = false := by
    cases hx
    exact ⟨rfl, rfl, rfl, rfl, rfl⟩
  have hreach := reach_of_runIf hx
  exact ⟨x, _, hreach, rfl, hstdout,
    (frame_limit_enforced_iff hreach hn hreader hstdout hsent).mpr (.inl hearly)⟩

set_option maxRecDepth 2000 in
/-- The reader waits with the limit of the handshake when the session becomes `Ready`, and lets a frame
pass that is longer than was negotiated. -/
theorem Timeline.stale_frame_limit :
    ¬ ∀ (config : ProcessHostConfig) x, Reach step OnceNegotiated (new config) x →
      ∀ (n : Nat) (limits : Limits) limit payload rest,
        x.host.session.threads[n]? = some (.negotiate limits (.done true)) → x.host.reader = .read limit →
          x.host.stdout = payload :: rest → x.sent.head? = some true →
          (Rejects x.host ↔ limits.frame < payload.length) := by
  intro h
  obtain ⟨x, hx⟩ : ∃ x, runIf step OnceNegotiated (new .default)
      (helloRun ++ [.reader false] ++ readyRun ++ [.respond tooLong]) = some x := ⟨_, rfl⟩
  obtain ⟨hn, hreader, hstdout, hsent⟩ :
      x.host.session.threads[2]? =
        some (.negotiate (negotiate ProcessHostConfig.default.limits ⟨9, 9, 9, 9, 9⟩) (.done true)) ∧
      x.host.reader = .read (64 * 1024) ∧ x.host.stdout = [tooLong] ∧ x.sent.head? = some true := by
    cases hx
    exact ⟨rfl, rfl, rfl, rfl⟩
  have hrejects := (h _ x (reach_of_runIf hx) _ _ _ _ _ hn hreader hstdout hsent).mpr (by decide)
  have hlt := (rejects_iff hreader hstdout).mp hrejects
  exact absurd hlt (by decide)

end Actors

end Cordis
