import Cordis.Host.Closing
import Cordis.Host.Verdict

/-!
# What the actors wait for

Every actor waits for something: the supervisor for the other two, an actor for the thread it runs, a transition for
the lock of `terminal_error`. In every run, what is waited for is there (`Manned`).
-/

namespace Cordis.Session

/-- A thread that an actor runs. -/
def Pc.tasked : Pc → Bool
  | .dispatch .. | .terminate .. => true
  | _ => false

/-- A thread that an actor runs and that has not come to its end. -/
def Pc.busy : Pc → Bool
  | .dispatch _ (.done ..) | .terminate _ (.done _) => false
  | pc => pc.tasked

/-- The transition has exchanged the state, or found it terminal. -/
def TransitionPc.past : TransitionPc → Bool
  | .done _ => true
  | tpc => tpc.winning

end Cordis.Session

namespace Cordis.Actors

open Protocol Session Machine Threads

/-- An actor waits for thread `n`. -/
def Awaited (h : Host) (n : Nat) : Prop :=
  h.reader = .dispatching n ∨ h.reader = .failing n ∨ h.writer = .failing n ∨ h.supervisor = .transition n

/-- How far the supervisor is with taking the others down. -/
def Staged (h : Host) : Prop :=
  match h.supervisor with
  | .stop => h.session.Terminal
  | .joinReader => h.session.Terminal ∧ h.session.actorStop = true
  | .joinWriter => h.session.Terminal ∧ h.session.actorStop = true ∧ h.reader = .ended
  | .ended => h.session.Terminal ∧ h.session.actorStop = true ∧ h.reader = .ended ∧ h.writer = .ended
  | _ => True

/-- Who waits, waits for something that is there: a thread that an actor waits for, the holder of a lock. -/
structure Manned (h : Host) : Prop where
  accounted : Accounted h.session
  locked : h.session.terminalLock = true → ∃ n terminal tpc, At h.session n terminal tpc ∧ tpc.locking = true
  passed : ∀ n terminal tpc, At h.session n terminal tpc → tpc.past = true → h.session.Terminal
  awaited : ∀ n, Awaited h n → ∃ pc, h.session.threads[n]? = some pc ∧ pc.tasked = true
  transition : ∀ n, h.supervisor = .transition n → ∃ terminal tpc,
    h.session.threads[n]? = some (.terminate terminal tpc)
  busy : ∀ n pc, h.session.threads[n]? = some pc → pc.busy = true → Awaited h n
  deaf : h.writer = .ended → h.session.receiving = false
  staged : Staged h

section Manned

variable {h h' : Host} {s t : SessionInner} {n : Nat} {b : Bool} {pc pc' : Pc}

theorem tasked_of_busy (h : pc.busy = true) : pc.tasked = true := by
  cases pc with
  | dispatch | terminate => rfl
  | call | negotiate => exact h

theorem finished_or_busy (h : pc.tasked = true) : (finished (some pc)).isSome = true ∨ pc.busy = true := by
  cases pc with
  | dispatch message dpc => cases dpc <;> simp [finished, Pc.busy, Pc.tasked]
  | terminate terminal tpc => cases tpc <;> simp [finished, Pc.busy, Pc.tasked]
  | call | negotiate => cases h

theorem not_busy_of_finished (h : (finished (some pc)).isSome = true) : pc.busy = false := by
  cases pc with
  | dispatch message dpc => cases dpc <;> simp_all [finished, Pc.busy]
  | terminate terminal tpc => cases tpc <;> simp_all [finished, Pc.busy]
  | call | negotiate => cases h

theorem Staged.keeps (hstaged : Staged h) (hsupervisor : h'.supervisor = h.supervisor)
    (hterminal : h.session.Terminal → h'.session.Terminal)
    (hstop : h.session.actorStop = true → h'.session.actorStop = true)
    (hreader : h.reader = .ended → h'.reader = .ended) (hwriter : h.writer = .ended → h'.writer = .ended) :
    Staged h' := by
  unfold Staged at hstaged ⊢
  rw [hsupervisor]
  cases hs : h.supervisor with
  | stop =>
    rw [hs] at hstaged
    exact hterminal hstaged
  | joinReader =>
    rw [hs] at hstaged
    exact ⟨hterminal hstaged.1, hstop hstaged.2⟩
  | joinWriter =>
    rw [hs] at hstaged
    exact ⟨hterminal hstaged.1, hstop hstaged.2.1, hreader hstaged.2.2⟩
  | ended =>
    rw [hs] at hstaged
    exact ⟨hterminal hstaged.1, hstop hstaged.2.1, hreader hstaged.2.2.1, hwriter hstaged.2.2.2⟩
  | _ => trivial

theorem manned_new (config : ProcessHostConfig) : Manned (.new config) where
  accounted := accounted_new config
  locked hlock := by cases hlock
  passed n terminal tpc hat := by
    obtain ⟨pc, hn, -⟩ := hat
    cases hn
  awaited n hn := by rcases hn with hn | hn | hn | hn <;> cases hn
  transition n hn := by cases hn
  busy n pc hn := by cases hn
  deaf hended := by cases hended
  staged := trivial

/-! ## What keeps it -/

theorem Manned.moves (hm : Manned h) (hthreads : h'.session.threads = h.session.threads)
    (hsame : Untouched h.session h'.session) (hstate : h'.session.state = h.session.state)
    (hlock : h'.session.terminalLock = h.session.terminalLock) (hawaits : ∀ n, Awaited h' n → Awaited h n)
    (htransition : ∀ n, h'.supervisor = .transition n → h.supervisor = .transition n)
    (hleft : ∀ n, Awaited h n → Awaited h' n ∨ (finished h.session.threads[n]?).isSome = true)
    (hdeaf : h'.writer = .ended → h'.session.receiving = false) (hstaged : Staged h') : Manned h' where
  accounted := by
    have hrole : h'.session.role = h.session.role := by
      funext n
      unfold SessionInner.role
      rw [hthreads]
    refine hm.accounted.quiet hsame hrole fun hdrained => ?_
    obtain ⟨hterminal, hdrained⟩ := hdrained
    unfold SessionInner.Terminal at hterminal
    rw [hstate] at hterminal
    rw [hthreads] at hdrained
    exact ⟨hterminal, hdrained⟩
  locked hlocked := by
    unfold At
    rw [hthreads]
    exact hm.locked (hlock ▸ hlocked)
  passed n terminal tpc hat hpast := by
    unfold At at hat
    rw [hthreads] at hat
    have hterminal := hm.passed n terminal tpc hat hpast
    unfold SessionInner.Terminal at hterminal ⊢
    rwa [hstate]
  awaited n hn := by
    rw [hthreads]
    exact hm.awaited n (hawaits n hn)
  transition n hn := by
    rw [hthreads]
    exact hm.transition n (htransition n hn)
  busy n pc hn hbusy := by
    rw [hthreads] at hn
    refine (hleft n (hm.busy n pc hn hbusy)).resolve_right fun hfinished => ?_
    rw [hn] at hfinished
    rw [not_busy_of_finished hfinished] at hbusy
    cases hbusy
  deaf := hdeaf
  staged := hstaged

theorem Manned.starts (hm : Manned h) (hsession : h'.session = h.session.spawn pc)
    (hrole : pc.role = .apart) (hbegins : ∀ terminal tpc, pc.transition? = some (terminal, tpc) → tpc = .lock)
    (hawaits : ∀ n, Awaited h' n → Awaited h n ∨ n = h.session.threads.length ∧ pc.tasked = true)
    (htransition : ∀ n, h'.supervisor = .transition n → h.supervisor = .transition n ∨
      n = h.session.threads.length ∧ ∃ terminal, pc = .terminate terminal .lock)
    (hstays : ∀ n, Awaited h n → Awaited h' n)
    (hnew : pc.busy = true → Awaited h' h.session.threads.length)
    (hdeaf : h'.writer = .ended → h.writer = .ended) (hstaged : Staged h') : Manned h' := by
  have hlast : (h.session.threads ++ [pc])[h.session.threads.length]? = some pc := by simp
  have hkept : ∀ (n : Nat) (p : Pc), h.session.threads[n]? = some p →
      (h.session.spawn pc).threads[n]? = some p := by
    intro n p hn
    show (h.session.threads ++ [pc])[n]? = some p
    rw [List.getElem?_append_left (List.getElem?_eq_some_iff.mp hn).1, hn]
  refine ⟨?_, ?_, ?_, ?_, ?_, ?_, ?_, hstaged⟩
  · rw [hsession]
    exact hm.accounted.spawn hrole
  · intro hlocked
    rw [hsession] at hlocked
    obtain ⟨n, terminal, tpc, hat, hlocking⟩ := hm.locked hlocked
    rw [hsession]
    exact ⟨n, terminal, tpc, at_spawn_of_at hat, hlocking⟩
  · intro n terminal tpc hat hpast
    rw [hsession] at hat ⊢
    rcases at_spawn hat with hat | hat
    · exact hm.passed n terminal tpc hat hpast
    · cases hbegins terminal tpc hat
      cases hpast
  · intro n hn
    rw [hsession]
    rcases hawaits n hn with hn | ⟨rfl, htasked⟩
    · obtain ⟨p, hp, htasked⟩ := hm.awaited n hn
      exact ⟨p, hkept n p hp, htasked⟩
    · exact ⟨pc, hlast, htasked⟩
  · intro n hn
    rw [hsession]
    rcases htransition n hn with hn | ⟨rfl, terminal, rfl⟩
    · obtain ⟨terminal, tpc, hp⟩ := hm.transition n hn
      exact ⟨terminal, tpc, hkept n _ hp⟩
    · exact ⟨terminal, .lock, hlast⟩
  · intro n p hn hbusy
    rw [hsession] at hn
    rcases new_thread hn with hn | ⟨rfl, rfl⟩
    · exact hstays n (hm.busy n p hn hbusy)
    · exact hnew hbusy
  · intro hended
    rw [hsession]
    exact hm.deaf (hdeaf hended)

/-! ## A thread takes a step -/

theorem terminal_of_state (hterminal : s.Terminal) (hstate : t.state = s.state) : t.Terminal := by
  unfold SessionInner.Terminal at hterminal ⊢
  rwa [hstate]

theorem stepTransition_terminal_stays {terminal : Terminal} {tpc tpc' : TransitionPc}
    (h : stepTransition s terminal tpc = some (t, tpc')) (hterminal : s.Terminal) : t.Terminal := by
  have hends := terminal.state_terminal
  cases tpc <;> simp only [stepTransition] at h
  case lock | load | exchange =>
    split_ifs at h <;> cases h <;> first | exact hterminal | exact hends
  case record => cases terminal <;> cases h <;> exact hterminal
  case done => cases h
  all_goals
    cases h
    exact hterminal

theorem stepThread_terminal (h : stepThread s n b pc = some (t, pc')) (hterminal : s.Terminal) :
    t.Terminal := by
  cases stepThread_rule h with
  | keep hstate => exact terminal_of_state hterminal hstate
  | ordinary hstate => exact absurd hterminal (not_terminal_of_ordinary hstate).1
  | transition terminal tpc tpc' _ _ hstep => exact stepTransition_terminal_stays hstep hterminal

theorem stepThread_tasked (h : stepThread s n b pc = some (t, pc')) : pc'.tasked = pc.tasked := by
  cases pc <;> obtain ⟨q, -, heq⟩ := Option.map_eq_some_iff.mp h <;> cases heq <;> rfl

theorem stepThread_busy (h : stepThread s n b pc = some (t, pc')) (htasked : pc.tasked = true) :
    pc.busy = true := by
  refine (finished_or_busy htasked).resolve_left fun hfinished => ?_
  cases pc with
  | dispatch message dpc => cases dpc <;> simp_all [finished, stepThread, stepDispatch]
  | terminate terminal tpc => cases tpc <;> simp_all [finished, stepThread, stepTransition]
  | call | negotiate => cases htasked

theorem stepThread_flags (h : stepThread s n b pc = some (t, pc')) :
    (s.force = true → t.force = true) ∧ (s.actorStop = true → t.actorStop = true) ∧
      t.receiving = s.receiving := by
  have htransition : ∀ terminal tpc tpc', stepTransition s terminal tpc = some (t, tpc') →
      (s.force = true → t.force = true) ∧ (s.actorStop = true → t.actorStop = true) ∧
        t.receiving = s.receiving := by
    intro terminal tpc tpc' hstep
    cases tpc <;> simp only [stepTransition] at hstep
    case lock | load | exchange => split_ifs at hstep <;> cases hstep <;> exact ⟨id, id, rfl⟩
    case record => cases terminal <;> cases hstep <;> exact ⟨id, id, rfl⟩
    case done => cases hstep
    all_goals
      cases hstep
      simp
  cases pc with
  | call op cpc =>
    obtain ⟨⟨v, q⟩, hstep, heq⟩ := Option.map_eq_some_iff.mp h
    cases heq
    have hsteady := stepCall_steady hstep
    rw [hsteady.force, hsteady.actorStop]
    exact ⟨id, id, hsteady.receiving⟩
  | terminate terminal tpc =>
    obtain ⟨⟨v, q⟩, hstep, heq⟩ := Option.map_eq_some_iff.mp h
    cases heq
    exact htransition terminal tpc q hstep
  | negotiate limits npc =>
    obtain ⟨⟨v, q⟩, hstep, heq⟩ := Option.map_eq_some_iff.mp h
    cases heq
    have hsteady := stepNegotiate_steady hstep
    rw [hsteady.force, hsteady.actorStop]
    exact ⟨id, id, hsteady.receiving⟩
  | dispatch message dpc =>
    obtain ⟨⟨v, q⟩, hstep, heq⟩ := Option.map_eq_some_iff.mp h
    cases heq
    cases dpc <;> simp only [stepDispatch] at hstep
    case failing error entry tpc =>
      split at hstep
      · cases hstep
        exact ⟨id, id, rfl⟩
      · cases hstep
        exact ⟨id, id, rfl⟩
      · obtain ⟨⟨u, tpc'⟩, hinner, heq⟩ := Option.map_eq_some_iff.mp hstep
        cases heq
        exact htransition _ _ _ hinner
    case done => cases hstep
    all_goals
      repeat' split at hstep
      all_goals
        cases hstep
        exact ⟨id, id, rfl⟩

theorem stepTransition_locked {terminal : Terminal} {tpc tpc' : TransitionPc}
    (h : stepTransition s terminal tpc = some (t, tpc')) (hlocked : t.terminalLock = true) :
    tpc'.locking = true ∨ tpc.locking = false ∧ s.terminalLock = true := by
  cases tpc <;> simp only [stepTransition] at h
  case lock | load | exchange => split_ifs at h <;> cases h <;> first | exact .inl rfl | cases hlocked
  case record => cases terminal <;> cases h <;> cases hlocked
  case done => cases h
  all_goals
    cases h
    exact .inr ⟨rfl, hlocked⟩

theorem stepTransition_past {terminal : Terminal} {tpc tpc' : TransitionPc}
    (h : stepTransition s terminal tpc = some (t, tpc')) (hpast : tpc'.past = true) :
    t.Terminal ∨ tpc.past = true := by
  have hends := terminal.state_terminal
  cases tpc <;> simp only [stepTransition] at h
  case lock =>
    split_ifs at h
    cases h
    cases hpast
  case load =>
    split_ifs at h with hterminal <;> cases h
    · exact .inl hterminal
    · cases hpast
  case exchange =>
    split_ifs at h <;> cases h
    · exact .inl hends
    · cases hpast
  all_goals exact .inr rfl

theorem Manned.run (hm : Manned h) (hn : h.session.threads[n]? = some pc)
    (hstep : stepThread h.session n b pc = some (t, pc')) :
    Manned { h with session := { t with threads := h.session.threads.set n pc' } } := by
  have hterminal : ∀ {u : SessionInner}, u.state = t.state → h.session.Terminal → u.Terminal :=
    fun heq hold => terminal_of_state (stepThread_terminal hstep hold) heq
  obtain ⟨-, hstop, hreceiving⟩ := stepThread_flags hstep
  have hrule := stepThread_rule hstep
  refine ⟨?_, fun hlocked => ?_, fun m terminal tpc hat hpast => ?_, fun m hm' => ?_, fun m hm' => ?_,
    fun m p hp hbusy => ?_, fun hended => hreceiving.trans (hm.deaf hended), ?_⟩
  · obtain ⟨heffect, hsettles⟩ := stepThread_effect hstep
    exact hm.accounted.run hn heffect hsettles
  · have hlocked : t.terminalLock = true := hlocked
    have hother : h.session.terminalLock = true → pc.locking = false → ∃ m terminal tpc,
        At { t with threads := h.session.threads.set n pc' } m terminal tpc ∧ tpc.locking = true := by
      intro hlock hfree
      obtain ⟨m, terminal, tpc, hat, hlocking⟩ := hm.locked hlock
      have hmn : m ≠ n := by
        rintro rfl
        obtain ⟨p, hp, htransition⟩ := hat
        obtain rfl := Option.some.inj (hn.symm.trans hp)
        rw [Pc.locking, htransition] at hfree
        exact absurd (hlocking.symm.trans hfree) (by decide)
      exact ⟨m, terminal, tpc, (at_set hn rfl).mpr (.inr ⟨hmn, hat⟩), hlocking⟩
    cases hrule with
    | keep _ _ hlock hidle => exact hother (hlock ▸ hlocked) hidle.2
    | ordinary _ _ hlock hidle => exact hother (hlock ▸ hlocked) hidle.2
    | transition terminal tpc tpc' hwas hnow htransition =>
      rcases stepTransition_locked htransition hlocked with hlocking | ⟨hfree, hlock⟩
      · exact ⟨n, terminal, tpc', (at_set hn rfl).mpr (.inl ⟨rfl, hnow⟩), hlocking⟩
      · refine hother hlock ?_
        rw [Pc.locking, hwas]
        exact hfree
  · rcases (at_set hn rfl).mp hat with ⟨-, htransition⟩ | ⟨-, hat⟩
    · have hquiet : pc'.idle → pc'.returned? = none → False := by
        intro hidle hsilent
        obtain ⟨hwinning, -⟩ := hidle
        rw [Pc.winning, htransition] at hwinning
        rw [Pc.returned?, htransition] at hsilent
        cases tpc <;> simp_all [TransitionPc.past, TransitionPc.winning, TransitionPc.returned?]
      cases hrule with
      | keep _ _ _ _ hidle hsilent => exact (hquiet hidle hsilent).elim
      | ordinary _ _ _ _ hidle hsilent => exact (hquiet hidle hsilent).elim
      | transition T q q' hwas hnow hstepped =>
        rw [htransition] at hnow
        cases hnow
        rcases stepTransition_past hstepped hpast with hends | hpast
        · exact hends
        · exact hterminal rfl (hm.passed n terminal q ⟨pc, hn, hwas⟩ hpast)
    · exact hterminal rfl (hm.passed m terminal tpc hat hpast)
  · obtain ⟨p, hp, htasked⟩ := hm.awaited m hm'
    by_cases hmn : m = n
    · subst hmn
      obtain rfl := Option.some.inj (hn.symm.trans hp)
      exact ⟨pc', (get_set hn).mpr (.inl ⟨rfl, rfl⟩), (stepThread_tasked hstep).trans htasked⟩
    · exact ⟨p, (get_set hn).mpr (.inr ⟨hmn, hp⟩), htasked⟩
  · obtain ⟨terminal, tpc, hp⟩ := hm.transition m hm'
    by_cases hmn : m = n
    · subst hmn
      obtain rfl := Option.some.inj (hn.symm.trans hp)
      obtain ⟨⟨v, q⟩, -, heq⟩ := Option.map_eq_some_iff.mp hstep
      cases heq
      exact ⟨terminal, q, (get_set hn).mpr (.inl ⟨rfl, rfl⟩)⟩
    · exact ⟨terminal, tpc, (get_set hn).mpr (.inr ⟨hmn, hp⟩)⟩
  · rcases (get_set hn).mp hp with ⟨rfl, rfl⟩ | ⟨-, hp⟩
    · have htasked := (stepThread_tasked hstep).symm.trans (tasked_of_busy hbusy)
      exact hm.busy m pc hn (stepThread_busy hstep htasked)
    · exact hm.busy m p hp hbusy
  · exact hm.staged.keeps rfl (hterminal rfl) hstop id id

theorem Manned.drop (hm : Manned h) (hn : h.session.threads[n]? = some pc) (hdrop : dropThread pc = some pc') :
    Manned { h with session := { h.session with threads := h.session.threads.set n pc' } } := by
  obtain ⟨hwas, hnow⟩ := dropThread_quiet hdrop
  have hstep : Session.step h.session (.drop n) =
      some { h.session with threads := h.session.threads.set n pc' } := by
    simp [Session.step, hn, hdrop]
  have hcall : pc.tasked = false ∧ pc'.tasked = false := by
    cases pc with
    | call op cpc =>
      obtain ⟨q, -, rfl⟩ := Option.map_eq_some_iff.mp hdrop
      exact ⟨rfl, rfl⟩
    | dispatch | terminate | negotiate => cases hdrop
  have hne : ∀ {m : Nat} {p : Pc}, h.session.threads[m]? = some p → p.tasked = true → m ≠ n := by
    rintro m p hp htasked rfl
    obtain rfl := Option.some.inj (hn.symm.trans hp)
    exact absurd (htasked.symm.trans hcall.1) (by decide)
  refine ⟨accounted_step hm.accounted hstep, fun hlocked => ?_, fun m terminal tpc hat hpast => ?_,
    fun m hm' => ?_, fun m hm' => ?_, fun m p hp hbusy => ?_, hm.deaf, hm.staged.keeps rfl id id id id⟩
  · obtain ⟨m, terminal, tpc, hat, hlocking⟩ := hm.locked hlocked
    refine ⟨m, terminal, tpc, (at_set hn rfl).mpr (.inr ⟨?_, hat⟩), hlocking⟩
    rintro rfl
    obtain ⟨p, hp, htransition⟩ := hat
    obtain rfl := Option.some.inj (hn.symm.trans hp)
    rw [hwas] at htransition
    cases htransition
  · rcases (at_set hn rfl).mp hat with ⟨-, htransition⟩ | ⟨-, hat⟩
    · rw [hnow] at htransition
      cases htransition
    · exact hm.passed m terminal tpc hat hpast
  · obtain ⟨p, hp, htasked⟩ := hm.awaited m hm'
    exact ⟨p, (get_set hn).mpr (.inr ⟨hne hp htasked, hp⟩), htasked⟩
  · obtain ⟨terminal, tpc, hp⟩ := hm.transition m hm'
    exact ⟨terminal, tpc, (get_set hn).mpr (.inr ⟨hne hp rfl, hp⟩)⟩
  · rcases (get_set hn).mp hp with ⟨-, rfl⟩ | ⟨-, hp⟩
    · exact absurd ((tasked_of_busy hbusy).symm.trans hcall.2) (by decide)
    · exact hm.busy m p hp hbusy

/-! ## An actor takes a step -/

/-- A thread that an actor starts. -/
inductive Task : Pc → Prop
  | dispatch (message : Message) : Task (.dispatch message .check)
  | terminate (terminal : Terminal) : Task (.terminate terminal .lock)

theorem Task.begins (htask : Task pc) {terminal : Terminal} {tpc : TransitionPc}
    (h : pc.transition? = some (terminal, tpc)) : tpc = .lock := by
  cases htask <;> cases h
  rfl

theorem Task.apart (htask : Task pc) : pc.role = .apart := by cases htask <;> rfl

theorem Task.tasked (htask : Task pc) : pc.tasked = true := by cases htask <;> rfl

theorem Manned.readerMoves (hm : Manned h) (r : ReaderPc) (l : List (List UInt8)) (hopen : h.reader ≠ .ended)
    (hleft : ∀ n, h.reader = .dispatching n ∨ h.reader = .failing n →
      (finished h.session.threads[n]?).isSome = true)
    (hnew : ∀ n, r ≠ .dispatching n ∧ r ≠ .failing n) : Manned { h with reader := r, stdout := l } := by
  refine hm.moves rfl (.refl _) rfl rfl (fun n hn => ?_) (fun n => id) (fun n hn => ?_) hm.deaf
    (hm.staged.keeps rfl id id (fun hended => absurd hended hopen) id)
  · rcases hn with hn | hn | hn | hn
    · exact absurd hn (hnew n).1
    · exact absurd hn (hnew n).2
    · exact .inr (.inr (.inl hn))
    · exact .inr (.inr (.inr hn))
  · rcases hn with hn | hn | hn | hn
    · exact .inr (hleft n (.inl hn))
    · exact .inr (hleft n (.inr hn))
    · exact .inl (.inr (.inr (.inl hn)))
    · exact .inl (.inr (.inr (.inr hn)))

theorem Manned.readerStarts (hm : Manned h) (htask : Task pc) {r : ReaderPc}
    (hr : r = .dispatching h.session.threads.length ∨ r = .failing h.session.threads.length)
    (hopen : h.reader ≠ .ended) (hfree : ∀ n, h.reader ≠ .dispatching n ∧ h.reader ≠ .failing n) :
    Manned { h with session := h.session.spawn pc, reader := r } := by
  refine hm.starts rfl htask.apart (fun _ _ => htask.begins) (fun n hn => ?_) (fun n => .inl) (fun n hn => ?_)
    (fun _ => ?_) id (hm.staged.keeps rfl id id (fun hended => absurd hended hopen) id)
  · rcases hn with hn | hn | hn | hn
    · refine .inr ⟨?_, htask.tasked⟩
      rcases hr with hr | hr <;> cases hr.symm.trans hn
      rfl
    · refine .inr ⟨?_, htask.tasked⟩
      rcases hr with hr | hr <;> cases hr.symm.trans hn
      rfl
    · exact .inl (.inr (.inr (.inl hn)))
    · exact .inl (.inr (.inr (.inr hn)))
  · rcases hn with hn | hn | hn | hn
    · exact absurd hn (hfree n).1
    · exact absurd hn (hfree n).2
    · exact .inr (.inr (.inl hn))
    · exact .inr (.inr (.inr hn))
  · exact hr.elim .inl fun hr => .inr (.inl hr)

theorem Manned.reader_step {stop : Bool} (hm : Manned h) (hs : stepReader h stop = some h') : Manned h' := by
  unfold stepReader at hs
  cases hr : h.reader with
  | limit =>
    simp only [hr] at hs
    cases hs
    exact hm.readerMoves _ h.stdout (by simp [hr]) (by simp [hr]) (by simp)
  | read limit =>
    simp only [hr] at hs
    cases stop with
    | true =>
      simp only [if_true] at hs
      split_ifs at hs
      cases hs
      exact hm.readerMoves _ h.stdout (by simp [hr]) (by simp [hr]) (by simp)
    | false =>
      simp only [Bool.false_eq_true, if_false] at hs
      cases hl : h.stdout with
      | nil =>
        simp only [hl] at hs
        obtain ⟨error, -, rfl⟩ := Option.map_eq_some_iff.mp hs
        exact hm.readerMoves (.readFailed error) [] (by simp [hr]) (by simp [hr]) (by simp)
      | cons payload rest =>
        simp only [hl] at hs
        split_ifs at hs <;> cases hs
        · exact hm.readerMoves (.readFailed _) (payload :: rest) (by simp [hr]) (by simp [hr]) (by simp)
        · exact hm.readerMoves _ rest (by simp [hr]) (by simp [hr]) (by simp)
  | readFailed error =>
    simp only [hr] at hs
    split_ifs at hs <;> cases hs <;> exact hm.readerMoves _ h.stdout (by simp [hr]) (by simp [hr]) (by simp)
  | readFailedOpen error =>
    simp only [hr] at hs
    split_ifs at hs <;> cases hs
    · exact hm.readerMoves _ h.stdout (by simp [hr]) (by simp [hr]) (by simp)
    · exact hm.readerStarts (.terminate _) (.inr rfl) (by simp [hr]) (by simp [hr])
  | decode payload =>
    simp only [hr] at hs
    split_ifs at hs
    · cases hs
      exact hm.readerStarts (.terminate _) (.inr rfl) (by simp [hr]) (by simp [hr])
    · split at hs <;> cases hs
      · exact hm.readerStarts (.terminate _) (.inr rfl) (by simp [hr]) (by simp [hr])
      · exact hm.readerStarts (.dispatch _) (.inl rfl) (by simp [hr]) (by simp [hr])
  | dispatching n =>
    simp only [hr] at hs
    obtain ⟨go, hfinished, rfl⟩ := Option.map_eq_some_iff.mp hs
    refine hm.readerMoves _ h.stdout (by simp [hr]) (fun m hm' => ?_) (fun m => ?_)
    · rw [hr] at hm'
      rcases hm' with heq | heq <;> cases heq
      rw [hfinished]
      rfl
    · cases go <;> simp
  | failing n =>
    simp only [hr] at hs
    obtain ⟨go, hfinished, rfl⟩ := Option.map_eq_some_iff.mp hs
    refine hm.readerMoves _ h.stdout (by simp [hr]) (fun m hm' => ?_) (by simp)
    rw [hr] at hm'
    rcases hm' with heq | heq <;> cases heq
    rw [hfinished]
    rfl
  | ended =>
    simp only [hr] at hs
    cases hs

theorem Manned.writerMoves (hm : Manned h) (w : WriterPc) (l : List Message) (receiving : Bool)
    (frames : List (List UInt8)) (hopen : h.writer ≠ .ended) (hended : w = .ended → receiving = false)
    (hleft : ∀ n, h.writer = .failing n → (finished h.session.threads[n]?).isSome = true)
    (hnew : ∀ n, w ≠ .failing n) :
    Manned { h with
      session := { h.session with outbound := l, receiving := receiving }
      writer := w
      stdin := frames } := by
  refine hm.moves rfl ⟨rfl, rfl, rfl⟩ rfl rfl (fun n hn => ?_) (fun n => id) (fun n hn => ?_) hended
    (hm.staged.keeps rfl id id id fun hended => absurd hended hopen)
  · rcases hn with hn | hn | hn | hn
    · exact .inl hn
    · exact .inr (.inl hn)
    · exact absurd hn (hnew n)
    · exact .inr (.inr (.inr hn))
  · rcases hn with hn | hn | hn | hn
    · exact .inl (.inl hn)
    · exact .inl (.inr (.inl hn))
    · exact .inr (hleft n hn)
    · exact .inl (.inr (.inr (.inr hn)))

theorem Manned.writerFails (hm : Manned h) (error : HostError) (hopen : h.writer ≠ .ended)
    (hfree : ∀ n, h.writer ≠ .failing n) : Manned (h.writerFails error) := by
  have htask : Task (.terminate (.failed error) .lock) := .terminate _
  refine hm.starts rfl htask.apart (fun _ _ => htask.begins) (fun n hn => ?_) (fun n => .inl) (fun n hn => ?_)
    (fun _ => .inr (.inr (.inl rfl))) nofun (hm.staged.keeps rfl id id id fun hended => absurd hended hopen)
  · rcases hn with hn | hn | hn | hn
    · exact .inl (.inl hn)
    · exact .inl (.inr (.inl hn))
    · cases hn
      exact .inr ⟨rfl, rfl⟩
    · exact .inl (.inr (.inr (.inr hn)))
  · rcases hn with hn | hn | hn | hn
    · exact .inl hn
    · exact .inr (.inl hn)
    · exact absurd hn (hfree n)
    · exact .inr (.inr (.inr hn))

theorem Manned.writer_step {stop : Bool} {nanos : UInt64} (hm : Manned h)
    (hs : stepWriter h stop nanos = some h') : Manned h' := by
  unfold stepWriter at hs
  cases hw : h.writer with
  | receive =>
    simp only [hw] at hs
    cases stop with
    | true =>
      simp only [if_true] at hs
      split_ifs at hs
      cases hs
      exact hm.writerMoves .ended h.session.outbound false h.stdin (by simp [hw]) (fun _ => rfl) (by simp [hw])
        (by simp)
    | false =>
      simp only [Bool.false_eq_true, if_false] at hs
      split at hs <;> cases hs
      exact hm.writerMoves _ _ h.session.receiving h.stdin (by simp [hw]) (by simp) (by simp [hw]) (by simp)
  | encode message =>
    simp only [hw] at hs
    split at hs
    · cases hs
      exact hm.writerFails _ (by simp [hw]) (by simp [hw])
    · split_ifs at hs <;> cases hs
      · exact hm.writerMoves _ h.session.outbound h.session.receiving h.stdin (by simp [hw]) (by simp)
          (by simp [hw]) (by simp)
      · exact hm.writerFails _ (by simp [hw]) (by simp [hw])
  | write payload =>
    simp only [hw] at hs
    split_ifs at hs <;> cases hs
    · exact hm.writerMoves .receive h.session.outbound h.session.receiving _ (by simp [hw]) (by simp)
        (by simp [hw]) (by simp)
    · exact hm.writerFails _ (by simp [hw]) (by simp [hw])
  | failing n =>
    simp only [hw] at hs
    obtain ⟨go, hfinished, rfl⟩ := Option.map_eq_some_iff.mp hs
    refine hm.writerMoves .ended h.session.outbound false h.stdin (by simp [hw]) (fun _ => rfl) (fun m hm' => ?_)
      (by simp)
    rw [hw] at hm'
    cases hm'
    rw [hfinished]
    rfl
  | ended =>
    simp only [hw] at hs
    cases hs

theorem Manned.supervisorMoves (hm : Manned h) (hsession : h'.session.threads = h.session.threads)
    (hsame : Untouched h.session h'.session) (hstate : h'.session.state = h.session.state)
    (hlock : h'.session.terminalLock = h.session.terminalLock)
    (hreceiving : h'.session.receiving = h.session.receiving) (hreader : h'.reader = h.reader)
    (hwriter : h'.writer = h.writer) (hleft : ∀ n, h.supervisor = .transition n →
      (finished h.session.threads[n]?).isSome = true)
    (hnew : ∀ n, h'.supervisor ≠ .transition n) (hstaged : Staged h') : Manned h' := by
  refine hm.moves hsession hsame hstate hlock (fun n hn => ?_) (fun n hn => absurd hn (hnew n)) (fun n hn => ?_)
    (fun hended => ?_) hstaged
  · unfold Awaited at hn
    rw [hreader, hwriter] at hn
    rcases hn with hn | hn | hn | hn
    · exact .inl hn
    · exact .inr (.inl hn)
    · exact .inr (.inr (.inl hn))
    · exact absurd hn (hnew n)
  · unfold Awaited
    rw [hreader, hwriter]
    rcases hn with hn | hn | hn | hn
    · exact .inl (.inl hn)
    · exact .inl (.inr (.inl hn))
    · exact .inl (.inr (.inr (.inl hn)))
    · exact .inr (hleft n hn)
  · rw [hreceiving]
    exact hm.deaf (hwriter.symm.trans hended)

theorem Manned.supervisorTransition (hm : Manned h) (terminal : Terminal)
    (hfree : ∀ n, h.supervisor ≠ .transition n) : Manned (h.supervisorTransition terminal) := by
  have htask : Task (.terminate terminal .lock) := .terminate _
  refine hm.starts rfl htask.apart (fun _ _ => htask.begins) (fun n hn => ?_) (fun n hn => ?_) (fun n hn => ?_)
    (fun _ => .inr (.inr (.inr rfl))) id trivial
  · rcases hn with hn | hn | hn | hn
    · exact .inl (.inl hn)
    · exact .inl (.inr (.inl hn))
    · exact .inl (.inr (.inr (.inl hn)))
    · cases hn
      exact .inr ⟨rfl, rfl⟩
  · cases hn
    exact .inr ⟨rfl, terminal, rfl⟩
  · rcases hn with hn | hn | hn | hn
    · exact .inl hn
    · exact .inr (.inl hn)
    · exact .inr (.inr (.inl hn))
    · exact absurd hn (hfree n)

theorem Manned.ended_of_finished (hm : Manned h) {terminal : Terminal} {tpc : TransitionPc}
    (hn : h.session.threads[n]? = some (.terminate terminal tpc))
    (hfinished : (finished h.session.threads[n]?).isSome = true) : h.session.Terminal := by
  rw [hn] at hfinished
  refine hm.passed n terminal tpc ⟨_, hn, rfl⟩ ?_
  cases tpc <;> first | rfl | cases hfinished

theorem Manned.supervisor_step {other : Bool} (hm : Manned h) (hs : stepSupervisor h other = some h') :
    Manned h' := by
  have hstaged := hm.staged
  unfold stepSupervisor at hs
  unfold Staged at hstaged
  cases hv : h.supervisor with
  | wait =>
    simp only [hv] at hs
    split_ifs at hs
    · cases hs
      exact hm.supervisorMoves rfl (.refl _) rfl rfl rfl rfl rfl (by simp [hv]) (by simp) trivial
    · obtain ⟨success, -, rfl⟩ := Option.map_eq_some_iff.mp hs
      exact hm.supervisorMoves rfl (.refl _) rfl rfl rfl rfl rfl (by simp [hv]) (by simp) trivial
  | exited success =>
    simp only [hv] at hs
    cases success with
    | none =>
      cases hs
      exact hm.supervisorTransition _ (by simp [hv])
    | some success =>
      cases success with
      | true =>
        simp only at hs
        split_ifs at hs <;> cases hs <;> exact hm.supervisorTransition _ (by simp [hv])
      | false =>
        cases hs
        exact hm.supervisorTransition _ (by simp [hv])
  | kill =>
    simp only [hv] at hs
    cases hs
    exact hm.supervisorMoves rfl (.refl _) rfl rfl rfl rfl rfl (by simp [hv]) (by simp) trivial
  | killed reaped =>
    simp only [hv] at hs
    cases reaped with
    | true =>
      simp only at hs
      split_ifs at hs with hfailed <;> cases hs
      · exact hm.supervisorMoves rfl (.refl _) rfl rfl rfl rfl rfl (by simp [hv]) (by simp) (.inr hfailed)
      · exact hm.supervisorTransition _ (by simp [hv])
    | false =>
      cases hs
      exact hm.supervisorTransition _ (by simp [hv])
  | transition n =>
    simp only [hv] at hs
    obtain ⟨go, hfinished, rfl⟩ := Option.map_eq_some_iff.mp hs
    have hsome : (finished h.session.threads[n]?).isSome = true := by
      rw [hfinished]
      rfl
    obtain ⟨terminal, tpc, hn⟩ := hm.transition n hv
    refine hm.supervisorMoves rfl (.refl _) rfl rfl rfl rfl rfl (fun m hm' => ?_) (by simp)
      (hm.ended_of_finished hn hsome)
    rw [hv] at hm'
    cases hm'
    exact hsome
  | stop =>
    simp only [hv] at hs hstaged
    cases hs
    exact hm.supervisorMoves rfl ⟨rfl, rfl, rfl⟩ rfl rfl rfl rfl rfl (by simp [hv]) (by simp) ⟨hstaged, rfl⟩
  | joinReader =>
    simp only [hv] at hs hstaged
    split_ifs at hs with hreader
    cases hs
    have hended : h.reader = .ended := by
      cases hr : h.reader <;> simp_all [ReaderPc.isEnded]
    exact hm.supervisorMoves rfl (.refl _) rfl rfl rfl rfl rfl (by simp [hv]) (by simp)
      ⟨hstaged.1, hstaged.2, hended⟩
  | joinWriter =>
    simp only [hv] at hs hstaged
    split_ifs at hs with hwriter
    cases hs
    have hended : h.writer = .ended := by
      cases hw : h.writer <;> simp_all [WriterPc.isEnded]
    exact hm.supervisorMoves rfl (.refl _) rfl rfl rfl rfl rfl (by simp [hv]) (by simp)
      ⟨hstaged.1, hstaged.2.1, hstaged.2.2, hended⟩
  | ended =>
    simp only [hv] at hs
    cases hs

theorem Manned.outside (hm : Manned h) (hthreads : h'.session.threads = h.session.threads)
    (hsame : Untouched h.session h'.session) (hstate : h'.session.state = h.session.state)
    (hlock : h'.session.terminalLock = h.session.terminalLock)
    (hreceiving : h'.session.receiving = h.session.receiving)
    (hstop : h'.session.actorStop = h.session.actorStop) (hreader : h'.reader = h.reader)
    (hwriter : h'.writer = h.writer) (hsupervisor : h'.supervisor = h.supervisor) : Manned h' := by
  have hawaited : ∀ n, Awaited h' n ↔ Awaited h n := by
    intro n
    rw [Awaited, hreader, hwriter, hsupervisor, Awaited]
  refine hm.moves hthreads hsame hstate hlock (fun n => (hawaited n).mp) (fun n hn => hsupervisor ▸ hn)
    (fun n hn => .inl ((hawaited n).mpr hn)) (fun hended => ?_)
    (hm.staged.keeps hsupervisor (terminal_of_state · hstate) (fun hwas => hstop.trans hwas)
      (fun hended => hreader.trans hended) fun hended => hwriter.trans hended)
  rw [hreceiving]
  exact hm.deaf (hwriter.symm.trans hended)

theorem Manned.client (hm : Manned h) (hpc : pc.tasked = false) (hrole : pc.role = .apart) :
    Manned { h with session := h.session.spawn pc } := by
  refine hm.starts rfl hrole (fun terminal tpc htransition => ?_) (fun n => .inl) (fun n => .inl) (fun n => id)
    (fun hbusy => ?_) id (hm.staged.keeps rfl id id id id)
  · cases pc with
    | call | negotiate => cases htransition
    | dispatch | terminate => cases hpc
  · exact absurd ((tasked_of_busy hbusy).symm.trans hpc) (by decide)

theorem manned_step {l : Label} (hm : Manned h) (hs : step h l = some h') : Manned h' := by
  cases l with
  | call op =>
    cases hs
    exact hm.client rfl rfl
  | negotiate limits =>
    cases hs
    exact hm.client rfl rfl
  | run n b =>
    obtain ⟨s, hstep, rfl⟩ := Option.map_eq_some_iff.mp hs
    obtain ⟨pc, hn, hstep⟩ := Option.bind_eq_some_iff.mp hstep
    obtain ⟨⟨t, pc'⟩, hthread, heq⟩ := Option.bind_eq_some_iff.mp hstep
    cases heq
    exact hm.run hn hthread
  | drop n =>
    obtain ⟨s, hstep, rfl⟩ := Option.map_eq_some_iff.mp hs
    obtain ⟨pc, hn, hstep⟩ := Option.bind_eq_some_iff.mp hstep
    obtain ⟨pc', hdrop, heq⟩ := Option.bind_eq_some_iff.mp hstep
    cases heq
    exact hm.drop hn hdrop
  | force | closeInput =>
    cases hs
    exact hm.outside rfl ⟨rfl, rfl, rfl⟩ rfl rfl rfl rfl rfl rfl rfl
  | respond | closeOutput | exit =>
    simp only [step] at hs
    split_ifs at hs
    cases hs
    exact hm.outside rfl (.refl _) rfl rfl rfl rfl rfl rfl rfl
  | waitError =>
    simp only [step] at hs
    split at hs <;> cases hs
    rename_i hwait
    exact hm.supervisorMoves rfl (.refl _) rfl rfl rfl rfl rfl (by simp [hwait]) (by simp) trivial
  | reader stop => exact hm.reader_step hs
  | writer stop nanos => exact hm.writer_step hs
  | supervisor other => exact hm.supervisor_step hs

theorem manned_reach {config : ProcessHostConfig} {ok : Host → Label → Prop}
    (hr : Reach step ok (.new config) h) : Manned h :=
  hr.invariant (manned_new config) fun _ _ _ hm _ hs => manned_step hm hs

end Manned

end Cordis.Actors
