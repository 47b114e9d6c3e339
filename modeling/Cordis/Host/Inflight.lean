import Cordis.Host.Journal

/-!
# Permits of a session

Available permits and permits held by calls add up to the inflight limit: to the local one before
`apply_negotiated` forgets permits, to the negotiated one from then on. A call with an entry in `pending`
holds a permit, so the map is bounded by the limit, and the entry is gone before the permit is.
-/

namespace Cordis.Session

open Protocol Machine Threads

/-- The call holds a permit. -/
def CallPc.holding : CallPc → Bool
  | begin | checkState | acquire | refuse .nothing _ | acknowledge _ | ended _ => false
  | _ => true

def Pc.holding : Pc → Bool
  | call _ pc => pc.holding
  | _ => false

def SessionInner.held (s : SessionInner) : Nat := s.threads.countP Pc.holding

def Pc.negotiates : Pc → Bool
  | negotiate .. => true
  | _ => false

/-- `apply_negotiated` is called at most once on a session. -/
def onceNegotiated (s : SessionInner) : Label → Prop
  | .negotiate _ => ∀ pc ∈ s.threads, pc.negotiates = false
  | _ => True

instance (s : SessionInner) (l : Label) : Decidable (onceNegotiated s l) := by
  cases l <;> unfold onceNegotiated <;> infer_instance

/-! ## One step -/

section Step

variable {s t : SessionInner} {n : Nat} {b : Bool}

theorem stepBegin_permits (s : SessionInner) (op : Operation) :
    (stepBegin s op).1.permits = s.permits ∧ (stepBegin s op).1.limits = s.limits ∧
      (stepBegin s op).2.holding = false := by
  unfold stepBegin
  split
  all_goals first
    | exact ⟨rfl, rfl, rfl⟩
    | (split <;> exact ⟨rfl, rfl, rfl⟩)

theorem give_holding (held : Held) (result : Option Reply) (fallback : String) :
    (held.give result).holding = (CallPc.refuse held fallback).holding := by
  cases held <;> rfl

theorem stepCall_permits {op : Operation} {pc pc' : CallPc} (h : stepCall s n op b pc = some (t, pc')) :
    t.permits + pc'.holding.toNat = s.permits + pc.holding.toNat ∧ t.limits = s.limits := by
  cases pc with
  | begin =>
    simp only [stepCall, Option.some.injEq] at h
    have hbegin := stepBegin_permits s op
    rw [h] at hbegin
    obtain ⟨hpermits, hlimits, hholding⟩ := hbegin
    exact ⟨by rw [hpermits, hholding]; rfl, hlimits⟩
  | checkState | checkAgain | allocate | recheck =>
    simp only [stepCall] at h
    split_ifs at h <;> cases h <;> exact ⟨rfl, rfl⟩
  | acquire =>
    simp only [stepCall] at h
    split_ifs at h with havailable
    · cases h
      exact ⟨Nat.sub_add_cancel havailable, rfl⟩
    · cases h
      exact ⟨Nat.sub_add_cancel havailable, rfl⟩
    · cases h
      exact ⟨rfl, rfl⟩
  | exchange id =>
    simp only [stepCall] at h
    split_ifs at h <;> cases h <;> exact ⟨rfl, rfl⟩
  | publish id | register id =>
    cases h
    exact ⟨rfl, rfl⟩
  | enqueue id =>
    simp only [stepCall, stepEnqueue] at h
    split_ifs at h <;> cases h <;> exact ⟨rfl, rfl⟩
  | await id =>
    simp only [stepCall, stepAwait] at h
    split at h
    · cases h
      exact ⟨rfl, rfl⟩
    · split_ifs at h <;> cases h <;> exact ⟨rfl, rfl⟩
  | refuse held fallback =>
    simp only [stepCall] at h
    split_ifs at h
    cases h
    exact ⟨by rw [give_holding], rfl⟩
  | unregister id result guarded =>
    cases h
    cases guarded <;> exact ⟨rfl, rfl⟩
  | cancel id result =>
    cases h
    unfold SessionInner.trySend
    split_ifs <;> exact ⟨rfl, rfl⟩
  | release result =>
    simp only [stepCall] at h
    split at h <;> cases h <;> exact ⟨rfl, rfl⟩
  | acknowledge result =>
    cases h
    exact ⟨rfl, rfl⟩
  | ended result => cases h

theorem dropCall_holding {op : Operation} {pc pc' : CallPc} (h : dropCall op pc = some pc') :
    pc'.holding = pc.holding := by
  unfold dropCall at h
  split at h
  · cases h
    rfl
  · split_ifs at h
    cases h
    rfl
  · cases h
    rfl
  · split_ifs at h
    cases h
    rfl
  · cases h
    rfl
  · cases h

theorem stepTransition_permits {terminal : Terminal} {pc pc' : TransitionPc}
    (h : stepTransition s terminal pc = some (t, pc')) :
    t.permits = s.permits ∧ t.limits = s.limits := by
  cases pc with
  | lock | load | exchange =>
    simp only [stepTransition] at h
    split_ifs at h <;> cases h <;> exact ⟨rfl, rfl⟩
  | record =>
    simp only [stepTransition] at h
    split at h <;> cases h <;> exact ⟨rfl, rfl⟩
  | drain | stop | force | notify =>
    cases h
    exact ⟨rfl, rfl⟩
  | done won => cases h

theorem stepDispatch_permits {message : Message} {pc pc' : DispatchPc}
    (h : stepDispatch s message pc = some (t, pc')) :
    t.permits = s.permits ∧ t.limits = s.limits := by
  cases pc with
  | check =>
    simp only [stepDispatch] at h
    split_ifs at h <;> cases h <;> exact ⟨rfl, rfl⟩
  | remove =>
    simp only [stepDispatch] at h
    split at h <;> cases h <;> exact ⟨rfl, rfl⟩
  | judge entry =>
    simp only [stepDispatch] at h
    repeat' split at h
    all_goals
      cases h
      exact ⟨rfl, rfl⟩
  | failing error entry transition =>
    simp only [stepDispatch] at h
    split at h
    · cases h
      exact ⟨rfl, rfl⟩
    · cases h
      exact ⟨rfl, rfl⟩
    · obtain ⟨⟨u, tpc⟩, hstep, heq⟩ := Option.map_eq_some_iff.mp h
      cases heq
      exact stepTransition_permits hstep
  | acknowledge entry | reply entry answer go =>
    cases h
    exact ⟨rfl, rfl⟩
  | done => cases h

/-- Only `apply_negotiated` changes the sum of available and held permits. -/
theorem stepThread_permits {pc pc' : Pc} (h : stepThread s n b pc = some (t, pc'))
    (hpc : pc.negotiates = false) :
    t.permits + pc'.holding.toNat = s.permits + pc.holding.toNat ∧ t.limits = s.limits ∧
      pc'.negotiates = false := by
  cases pc with
  | call op pc =>
    obtain ⟨⟨u, q⟩, hstep, heq⟩ := Option.map_eq_some_iff.mp h
    cases heq
    obtain ⟨hpermits, hlimits⟩ := stepCall_permits hstep
    exact ⟨hpermits, hlimits, rfl⟩
  | dispatch message pc =>
    obtain ⟨⟨u, q⟩, hstep, heq⟩ := Option.map_eq_some_iff.mp h
    cases heq
    obtain ⟨hpermits, hlimits⟩ := stepDispatch_permits hstep
    exact ⟨by rw [hpermits]; rfl, hlimits, rfl⟩
  | terminate terminal pc =>
    obtain ⟨⟨u, q⟩, hstep, heq⟩ := Option.map_eq_some_iff.mp h
    cases heq
    obtain ⟨hpermits, hlimits⟩ := stepTransition_permits hstep
    exact ⟨by rw [hpermits]; rfl, hlimits, rfl⟩
  | negotiate limits pc => cases hpc

end Step

/-! ## The semaphore is balanced -/

/-- The permits that there are, available or held, when `apply_negotiated` stands here; a failed one
may have forgotten some. -/
def NegotiatePc.capacity (config : ProcessHostConfig) (limits : Limits) : NegotiatePc → Option Nat
  | check | forget _ => some config.maxInflightRequests
  | install | ready | done true => some limits.inflight
  | done false => none

structure Balanced (config : ProcessHostConfig) (s : SessionInner) : Prop where
  single : ∀ (n m : Nat) (pc pc' : Pc), s.threads[n]? = some pc → s.threads[m]? = some pc' →
    pc.negotiates = true → pc'.negotiates = true → n = m
  before : (∀ pc ∈ s.threads, pc.negotiates = false) →
    s.permits + s.held = config.maxInflightRequests ∧ s.limits = config.limits
  capacity : ∀ (n : Nat) (limits : Limits) (pc : NegotiatePc) (c : Nat),
    s.threads[n]? = some (.negotiate limits pc) → pc.capacity config limits = some c →
      s.permits + s.held = c
  untouched : ∀ (n : Nat) (limits : Limits), s.threads[n]? = some (.negotiate limits .check) →
    s.limits = config.limits
  shrink : ∀ (n : Nat) (limits : Limits) (k : Nat), s.threads[n]? = some (.negotiate limits (.forget k)) →
    limits.inflight + k = config.maxInflightRequests

section Balanced

variable {config : ProcessHostConfig} {s t : SessionInner} {n : Nat} {b : Bool} {pc pc' : Pc}

theorem held_set (pc' : Pc) (hn : s.threads[n]? = some pc) :
    (s.threads.set n pc').countP Pc.holding + pc.holding.toNat = s.held + pc'.holding.toNat :=
  countP_set hn

theorem Balanced.plain (h : Balanced config s) (hn : s.threads[n]? = some pc)
    (hpc : pc.negotiates = false) (hpc' : pc'.negotiates = false)
    (hpermits : t.permits + pc'.holding.toNat = s.permits + pc.holding.toNat)
    (hlimits : t.limits = s.limits) : Balanced config { t with threads := s.threads.set n pc' } := by
  have hsum : t.permits + (s.threads.set n pc').countP Pc.holding = s.permits + s.held := by
    have := held_set pc' hn
    omega
  have hold : ∀ (m : Nat) (p : Pc), (s.threads.set n pc')[m]? = some p → p.negotiates = true →
      s.threads[m]? = some p := by
    intro m p hm hp
    rcases (get_set hn).mp hm with ⟨-, rfl⟩ | ⟨-, hold⟩
    · rw [hpc'] at hp
      contradiction
    · exact hold
  refine ⟨fun k m p q hk hm hp hq => h.single k m p q (hold k p hk hp) (hold m q hm hq) hp hq,
    fun hnone => ?_, fun m limits npc c hm hc => ?_, fun m limits hm => ?_, fun m limits k hm => ?_⟩
  · obtain ⟨hbefore, hlocal⟩ := h.before fun p hp => by
      rcases mem_or_of_mem_set pc' hn hp with rfl | hmem
      · exact hpc
      · exact hnone p hmem
    exact ⟨hsum.trans hbefore, hlimits.trans hlocal⟩
  · exact hsum.trans (h.capacity m limits npc c (hold m _ hm rfl) hc)
  · exact hlimits.trans (h.untouched m limits (hold m _ hm rfl))
  · exact h.shrink m limits k (hold m _ hm rfl)

theorem Balanced.negotiating (h : Balanced config s) {limits : Limits} {npc npc' : NegotiatePc}
    (hn : s.threads[n]? = some (.negotiate limits npc)) (hcheck : npc' ≠ .check)
    (hcapacity : ∀ c, npc'.capacity config limits = some c → t.permits + s.held = c)
    (hshrink : ∀ k, npc' = .forget k → limits.inflight + k = config.maxInflightRequests) :
    Balanced config { t with threads := s.threads.set n (.negotiate limits npc') } := by
  have hheld : (s.threads.set n (.negotiate limits npc')).countP Pc.holding = s.held :=
    held_set (.negotiate limits npc') hn
  have hold : ∀ (m : Nat) (p : Pc), (s.threads.set n (.negotiate limits npc'))[m]? = some p →
      p.negotiates = true → m = n ∧ p = .negotiate limits npc' := by
    intro m p hm hp
    rcases (get_set hn).mp hm with heq | ⟨hne, hold⟩
    · exact heq
    · exact absurd (h.single m n p _ hold hn hp rfl) hne
  refine ⟨fun k m p q hk hm hp hq => (hold k p hk hp).1.trans (hold m q hm hq).1.symm,
    fun hnone => ?_, fun m L npc c hm hc => ?_, fun m L hm => ?_, fun m L k hm => ?_⟩
  · have hlt := (List.getElem?_eq_some_iff.mp hn).1
    exact absurd (hnone _ (List.mem_of_getElem? (List.getElem?_set_self hlt))) (by simp [Pc.negotiates])
  · obtain ⟨-, heq⟩ := hold m _ hm rfl
    cases heq
    show t.permits + (s.threads.set n _).countP Pc.holding = c
    rw [hheld]
    exact hcapacity c hc
  · obtain ⟨-, heq⟩ := hold m _ hm rfl
    cases heq
    exact absurd rfl hcheck
  · obtain ⟨-, heq⟩ := hold m _ hm rfl
    cases heq
    exact hshrink k rfl

theorem Balanced.negotiate_step (h : Balanced config s) {limits : Limits} {npc npc' : NegotiatePc}
    (hn : s.threads[n]? = some (.negotiate limits npc))
    (hs : stepNegotiate s limits npc = some (t, npc')) :
    Balanced config { t with threads := s.threads.set n (.negotiate limits npc') } := by
  have hcap := h.capacity n limits npc
  cases npc with
  | check =>
    have hlocal : s.limits.inflight = config.maxInflightRequests := by
      rw [h.untouched n limits hn]
      rfl
    simp only [stepNegotiate] at hs
    repeat' split at hs
    · cases hs
      exact h.negotiating hn (by simp) (by rintro _ ⟨⟩) (by simp)
    · cases hs
      exact h.negotiating hn (by simp) (by rintro _ ⟨⟩) (by simp)
    · cases hs
      refine h.negotiating hn (by simp) (fun c hc => hcap c hn hc) fun k hk => ?_
      cases hk
      omega
  | forget k =>
    have hsum := hcap _ hn rfl
    have hshrink := h.shrink n limits k hn
    cases hs
    by_cases hlt : s.permits < k
    · rw [if_pos hlt]
      exact h.negotiating hn (by simp) (by rintro _ ⟨⟩) (by simp)
    · rw [if_neg hlt]
      refine h.negotiating hn (by simp) (fun c hc => ?_) (by simp)
      cases hc
      show s.permits - k + s.held = limits.inflight
      omega
  | install =>
    cases hs
    exact h.negotiating hn (by simp) (fun c hc => hcap c hn hc) (by simp)
  | ready =>
    simp only [stepNegotiate] at hs
    split_ifs at hs
    · cases hs
      exact h.negotiating hn (by simp) (fun c hc => hcap c hn hc) (by simp)
    · cases hs
      exact h.negotiating hn (by simp) (by rintro _ ⟨⟩) (by simp)
  | done => cases hs

theorem Balanced.spawn (h : Balanced config s) (hpc : pc.negotiates = false)
    (hholding : pc.holding = false) : Balanced config (s.spawn pc) := by
  have hheld : (s.spawn pc).held = s.held := by
    rw [SessionInner.held, SessionInner.held, SessionInner.spawn, List.countP_append]
    simp [hholding]
  have hold : ∀ (m : Nat) (p : Pc), (s.spawn pc).threads[m]? = some p → p.negotiates = true →
      s.threads[m]? = some p := by
    intro m p hm hp
    rw [SessionInner.spawn, List.getElem?_append] at hm
    split_ifs at hm
    · exact hm
    · cases List.mem_singleton.mp (List.mem_of_getElem? hm)
      rw [hpc] at hp
      contradiction
  refine ⟨fun k m p q hk hm hp hq => h.single k m p q (hold k p hk hp) (hold m q hm hq) hp hq,
    fun hnone => ?_, fun m limits npc c hm hc => ?_, fun m limits hm => ?_, fun m limits k hm => ?_⟩
  · rw [hheld]
    exact h.before fun p hp => hnone p (List.mem_append_left _ hp)
  · rw [hheld]
    exact h.capacity m limits npc c (hold m _ hm rfl) hc
  · exact h.untouched m limits (hold m _ hm rfl)
  · exact h.shrink m limits k (hold m _ hm rfl)

theorem Balanced.negotiate (h : Balanced config s) (limits : Limits)
    (hnone : ∀ pc ∈ s.threads, pc.negotiates = false) :
    Balanced config (s.spawn (.negotiate limits .check)) := by
  obtain ⟨hsum, hlocal⟩ := h.before hnone
  have hheld : (s.spawn (.negotiate limits .check)).held = s.held := by
    rw [SessionInner.held, SessionInner.held, SessionInner.spawn, List.countP_append]
    rfl
  have hnew : ∀ (m : Nat) (p : Pc), (s.spawn (.negotiate limits .check)).threads[m]? = some p →
      p.negotiates = true → m = s.threads.length ∧ p = .negotiate limits .check := by
    intro m p hm hp
    rw [SessionInner.spawn, List.getElem?_append] at hm
    split_ifs at hm with hlt
    · rw [hnone p (List.mem_of_getElem? hm)] at hp
      contradiction
    · obtain ⟨hzero, rfl⟩ := List.getElem?_eq_some_iff.mp hm
      rw [List.length_singleton] at hzero
      exact ⟨by omega, by simp⟩
  refine ⟨fun k m p q hk hm hp hq => (hnew k p hk hp).1.trans (hnew m q hm hq).1.symm,
    fun hnone' => ?_, fun m L npc c hm hc => ?_, fun m L hm => hlocal, fun m L k hm => ?_⟩
  · exact absurd (hnone' _ (List.mem_append_right _ List.mem_cons_self)) (by simp [Pc.negotiates])
  · obtain ⟨-, heq⟩ := hnew m _ hm rfl
    cases heq
    cases hc
    rw [hheld]
    exact hsum
  · obtain ⟨-, heq⟩ := hnew m _ hm rfl
    cases heq

theorem balanced_step {l : Label} (h : Balanced config s) (hok : onceNegotiated s l)
    (hs : step s l = some t) : Balanced config t := by
  cases l with
  | call | dispatch | terminate =>
    cases hs
    exact h.spawn rfl rfl
  | negotiate limits =>
    cases hs
    exact h.negotiate limits hok
  | run n b =>
    obtain ⟨pc, hn, hrun⟩ := Option.bind_eq_some_iff.mp hs
    obtain ⟨⟨v, pc'⟩, hv, heq⟩ := Option.bind_eq_some_iff.mp hrun
    cases heq
    cases hnegotiates : pc.negotiates with
    | false =>
      obtain ⟨hpermits, hlimits, hpc'⟩ := stepThread_permits hv hnegotiates
      exact h.plain hn hnegotiates hpc' hpermits hlimits
    | true =>
      cases pc with
      | negotiate limits npc =>
        obtain ⟨⟨u, q⟩, hstep, heq⟩ := Option.map_eq_some_iff.mp hv
        cases heq
        exact h.negotiate_step hn hstep
      | call | dispatch | terminate => cases hnegotiates
  | drop n =>
    obtain ⟨pc, hn, hrun⟩ := Option.bind_eq_some_iff.mp hs
    obtain ⟨pc', hdrop, heq⟩ := Option.bind_eq_some_iff.mp hrun
    cases heq
    cases pc with
    | call op cpc =>
      obtain ⟨cpc', hcall, rfl⟩ := Option.map_eq_some_iff.mp hdrop
      have hholding : (Pc.call op cpc').holding = (Pc.call op cpc).holding := dropCall_holding hcall
      exact h.plain hn rfl rfl (by rw [hholding]) rfl
    | dispatch | terminate | negotiate => cases hdrop
  | receive | stopWriter =>
    cases hs
    exact ⟨h.single, h.before, h.capacity, h.untouched, h.shrink⟩

theorem balanced_new (config : ProcessHostConfig) : Balanced config (SessionInner.new config) where
  single n m pc pc' hn := absurd hn (by simp [SessionInner.new])
  before _ := ⟨rfl, rfl⟩
  capacity n limits pc c hn := absurd hn (by simp [SessionInner.new])
  untouched n limits hn := absurd hn (by simp [SessionInner.new])
  shrink n limits k hn := absurd hn (by simp [SessionInner.new])

end Balanced

/-! ## Entries and permits -/

theorem holding_of_id {pc : CallPc} {i : Nat} (h : pc.role.id? = some i) : pc.holding = true := by
  cases pc with
  | refuse held fallback => cases held <;> first | rfl | cases h
  | publish | register | recheck | enqueue | await | unregister => rfl
  | begin | checkState | acquire | checkAgain | allocate | exchange | cancel | release | acknowledge
  | ended => cases h

theorem Accounted.entry_holds {s : SessionInner} (h : Accounted s) {i : Nat} {e : PendingEntry}
    (he : (i, e) ∈ s.pending) : ∃ (op : Operation) (pc : CallPc),
      s.threads[e.sender]? = some (.call op pc) ∧ pc.role.id? = some i ∧ pc.holding = true := by
  obtain ⟨hid, hcalled⟩ := h.tracked.entries i e he
  obtain ⟨op, pc, hn, -⟩ := not_ended_of_called hid hcalled
  rw [role_of_get hn] at hid
  exact ⟨op, pc, hn, hid, holding_of_id hid⟩

theorem Accounted.pending_le_held {s : SessionInner} (h : Accounted s) : s.pending.length ≤ s.held := by
  have hnodup : (s.pending.map fun p => p.2.sender).Nodup := by
    refine (List.nodup_map_iff_inj_on (List.Nodup.of_map _ h.tracked.keys)).mpr ?_
    rintro ⟨i, e⟩ he ⟨j, e'⟩ he' hsender
    cases h.tracked.entry_unique he he' hsender
    rw [h.tracked.entry_of_key he he']
  have hle := length_le_countP hnodup (r := Pc.holding) (l := s.threads) fun n hn => by
    obtain ⟨⟨i, e⟩, he, rfl⟩ := List.mem_map.mp hn
    obtain ⟨op, pc, hget, -, hholding⟩ := h.entry_holds he
    exact ⟨_, hget, hholding⟩
  rwa [List.length_map] at hle

/-- From the success of `apply_negotiated` on, available and held permits add up to the smaller of the
two inflight limits and bound `pending`; the entry of a call is gone when it gives its permit back; and a
`Cancel` is sent once at most, after the `Invoke` of its id and the end of its entry. -/
theorem session_admission (config : ProcessHostConfig) (peer : Limits) (s : SessionInner)
    (log : List Event) (n : Nat)
    (h : Reach journal (fun j => onceNegotiated j.1) (SessionInner.new config, []) (s, log))
    (hn : s.threads[n]? = some (.negotiate (negotiate config.limits peer) (.done true))) :
    s.permits + s.held = min config.maxInflightRequests peer.inflight ∧
    s.pending.length ≤ min config.maxInflightRequests peer.inflight ∧
    (∀ (m : Nat) (op : Operation) (pc : CallPc), s.threads[m]? = some (.call op pc) →
      pc.holding = false ∨ (∃ result, pc = .release result) →
        ∀ i e, (i, e) ∈ s.pending → e.sender ≠ m) ∧
    (∀ before after id, log = before ++ .send (.Cancel id) :: after →
      Invoked before id ∧ .leave id.toNat ∈ before ∧ .send (.Cancel id) ∉ before) ∧
    (∀ id, .send (.Cancel id) ∈ log → id.toNat ∉ s.keys) := by
  have hr : Recorded s log := recorded_reach h
  have hreach : Reach step onceNegotiated (SessionInner.new config) s := h.unrecorded
  have hb : Balanced config s := hreach.invariant (balanced_new config) fun _ _ _ hi hok hs =>
    balanced_step hi hok hs
  have ha := accounted_reach hreach.weaken
  have hsum : s.permits + s.held = min config.maxInflightRequests peer.inflight :=
    hb.capacity n _ _ _ hn rfl
  refine ⟨hsum, ?_, fun m op pc hm hpast i e he hsender => ?_, fun before after id hlog => ?_,
    fun id hsend => ?_⟩
  · have := ha.pending_le_held
    omega
  · subst hsender
    obtain ⟨op', pc', hget, hid, hholding⟩ := ha.entry_holds he
    rw [hm] at hget
    cases hget
    rcases hpast with hpast | ⟨result, rfl⟩
    · rw [hpast] at hholding
      contradiction
    · cases hid
  · exact hr.guarded before _ after hlog
  · obtain ⟨before, after, hlog⟩ := List.append_of_mem hsend
    obtain ⟨-, hleft, -⟩ : Guards before (.send (.Cancel id)) := hr.guarded before _ after hlog
    exact (hr.left id.toNat (hlog ▸ List.mem_append_left _ hleft)).1

/-- A handshake with a peer that takes two requests at a time, and an `invoke` that is dropped. -/
def droppedInvokeRun : List Label :=
  Label.call .handshake :: List.replicate 10 (Label.run 0 false) ++
    Label.dispatch (.HelloAck 1 1 1 1 1 ⟨9, 9, 9, 9, 2⟩) :: List.replicate 4 (Label.run 1 false) ++
    List.replicate 2 (Label.run 0 false) ++
    Label.negotiate (negotiate ProcessHostConfig.default.limits ⟨9, 9, 9, 9, 2⟩) ::
      List.replicate 4 (Label.run 2 false) ++
    Label.call (.invoke 7 "" []) :: List.replicate 9 (Label.run 3 false) ++
    Label.drop 3 :: List.replicate 2 (Label.run 3 false)

def droppedInvoke : SessionInner × List Event :=
  (runIf journal (fun j => onceNegotiated j.1) (.new .default, []) droppedInvokeRun).getD
    (.new .default, [])

theorem droppedInvoke_reached :
    Reach journal (fun j => onceNegotiated j.1) (SessionInner.new .default, []) droppedInvoke := by
  have hrun : runIf journal (fun j => onceNegotiated j.1) (SessionInner.new .default, [])
      droppedInvokeRun = some droppedInvoke := rfl
  exact reach_of_runIf hrun

theorem session_admission_droppedInvoke :
    droppedInvoke.1.permits + droppedInvoke.1.held = 2 ∧ (2 : UInt64).toNat ∉ droppedInvoke.1.keys := by
  obtain ⟨hsum, -, -, -, hgone⟩ := session_admission .default ⟨9, 9, 9, 9, 2⟩ droppedInvoke.1
    droppedInvoke.2 2 droppedInvoke_reached rfl
  exact ⟨hsum, hgone 2 (by decide)⟩

end Cordis.Session
