import Cordis.Proof.Drains

/-!
# The counters and the record

`reaped` counts the records, and the counter of an outcome those with this outcome, less the records whose
recorder has not come to the counter. `Booked` says it of a step, `Balanced` of a state. An outcome that a
supervisor has no counter for is `silent`; tasks never end with theirs, which `Errorless` says.
-/

namespace Cordis.Supervision

open Machine Threads

/-- The outcome that a wrapper counts next. -/
def Wrapper.counting? : Wrapper → Option TaskOutcome
  | counting outcome => some outcome
  | _ => none

/-- The outcome that a drain counts next. -/
def DrainPc.counting? : DrainPc → Option TaskOutcome
  | counting _ outcome => some outcome
  | _ => none

/-- The outcome of a wrapper that has one. -/
def Wrapper.outcome? : Wrapper → Option TaskOutcome
  | completing outcome | reaping outcome | counting outcome | detaching outcome | leaving outcome =>
    some outcome
  | ended joined => some joined.outcome
  | _ => none

/-- The outcome that a drain records. -/
def DrainPc.outcome? : DrainPc → Option TaskOutcome
  | reaping _ outcome | counting _ outcome | detaching _ outcome => some outcome
  | _ => none

/-- The records with an outcome that is not counted. -/
def State.pending (s : State) (o : TaskOutcome) : Nat :=
  s.items.countP (fun item => item.wrapper.counting? == some o) +
    s.drains.countP (fun d => d.pc.counting? == some o)

/-- The counter of an outcome. -/
def Counters.of (c : Counters) : TaskOutcome → Nat
  | .Completed => c.completed
  | .Cancelled => c.cancelled
  | .Panicked => c.panicked
  | .Aborted => c.aborted
  | .Errored => c.errors

/-- Every outcome but `silent` has a counter. -/
structure Tallies (p : Policy) (silent : TaskOutcome) : Prop where
  reaped : ∀ c o, (p.tally c o).reaped = c.reaped
  counted : ∀ c o o', o' ≠ silent → (p.tally c o).of o' = c.of o' + (some o == some o').toNat

theorem taskSupervisor_tallies : Tallies taskSupervisor .Errored where
  reaped c o := by cases o <;> rfl
  counted c o o' h := by cases o <;> cases o' <;> first | rfl | exact absurd rfl h

theorem runtimeWorkerSupervisor_tallies : Tallies runtimeWorkerSupervisor .Completed where
  reaped c o := by cases o <;> rfl
  counted c o o' h := by cases o <;> cases o' <;> first | rfl | exact absurd rfl h

variable {p : Policy} {own : Prop} {silent : TaskOutcome} {s t : State}
  {log log' new : List (Nat × TaskOutcome)} {item item' : Item} {d d' : Drain} {i n : Nat}

/-- What a step that records `new` does to the counters. -/
structure Booked (silent : TaskOutcome) (s t : State) (new : List (Nat × TaskOutcome)) : Prop where
  reaped : t.counters.reaped = s.counters.reaped + new.length
  tallied : ∀ o, o ≠ silent →
    t.counters.of o + t.pending o = s.counters.of o + s.pending o + (new.map (·.2)).count o

/-- The counters agree with the record. -/
structure Balanced (silent : TaskOutcome) (s : State) (log : List (Nat × TaskOutcome)) : Prop where
  reaped : s.counters.reaped = log.length
  tallied : ∀ o, o ≠ silent → s.counters.of o + s.pending o = (log.map (·.2)).count o

theorem Balanced.step (h : Balanced silent s log) (hb : Booked silent s t new) :
    Balanced silent t (log ++ new) where
  reaped := by rw [hb.reaped, h.reaped, List.length_append]
  tallied o ho := by rw [hb.tallied o ho, h.tallied o ho, List.map_append, List.count_append]

theorem pending_item (hi : s.items[i]? = some item) (hitems : t.items = s.items.set i item')
    (hdrains : t.drains = s.drains) (o : TaskOutcome) :
    t.pending o + (item.wrapper.counting? == some o).toNat =
      s.pending o + (item'.wrapper.counting? == some o).toNat := by
  have hset := countP_set (r := fun item : Item => item.wrapper.counting? == some o) (b := item') hi
  unfold State.pending
  rw [hitems, hdrains]
  omega

theorem pending_drain (hd : s.drains[n]? = some d) (hitems : t.items = s.items)
    (hdrains : t.drains = s.drains.set n d') (o : TaskOutcome) :
    t.pending o + (d.pc.counting? == some o).toNat =
      s.pending o + (d'.pc.counting? == some o).toNat := by
  have hset := countP_set (r := fun d : Drain => d.pc.counting? == some o) (b := d') hd
  unfold State.pending
  rw [hitems, hdrains]
  omega

theorem Booked.quiet (hcounters : t.counters = s.counters) (hpending : ∀ o, t.pending o = s.pending o) :
    Booked silent s t [] where
  reaped := by rw [hcounters, List.length_nil, Nat.add_zero]
  tallied o _ := by rw [hcounters, hpending, List.map_nil, List.count_nil, Nat.add_zero]

theorem Booked.reap {o : TaskOutcome} (hcounters : t.counters = s.counters.reap)
    (hpending : ∀ o', t.pending o' = s.pending o' + (some o == some o').toNat) (id : Nat) :
    Booked silent s t [(id, o)] where
  reaped := by
    rw [hcounters]
    rfl
  tallied o' _ := by
    have hof : s.counters.reap.of o' = s.counters.of o' := by cases o' <;> rfl
    have hcount : ([(id, o)].map (·.2)).count o' = (some o == some o').toNat := by
      rw [List.map_singleton, List.count_singleton, Option.some_beq_some]
      cases o == o' <;> rfl
    rw [hcounters, hof, hpending, hcount, Nat.add_assoc]

theorem Booked.tally (hp : Tallies p silent) {o : TaskOutcome}
    (hcounters : t.counters = p.tally s.counters o)
    (hpending : ∀ o', t.pending o' + (some o == some o').toNat = s.pending o') :
    Booked silent s t [] where
  reaped := by rw [hcounters, hp.reaped, List.length_nil, Nat.add_zero]
  tallied o' ho' := by
    rw [hcounters, hp.counted _ _ _ ho', List.map_nil, List.count_nil, ← hpending]
    omega

/-- The operation neither records nor counts. -/
def Wrapper.idle (w w' : Wrapper) : Prop :=
  w.reaping? = none ∧ w.counting? = none ∧ w'.counting? = none

theorem stepWrapper_go {q : State × Wrapper} (h : stepWrapper p s item .go = some q) :
    q.1.items = s.items ∧ q.1.drains = s.drains ∧ q.2.outcome? = item.wrapper.outcome? ∧
      ((∃ o, item.wrapper = .reaping o ∧ q.1.counters = s.counters.reap ∧ q.2 = .counting o) ∨
        (∃ o, item.wrapper = .counting o ∧ q.1.counters = p.tally s.counters o ∧
          q.2.counting? = none) ∨
        q.1.counters = s.counters ∧ item.wrapper.idle q.2) := by
  simp only [stepWrapper] at h
  cases hw : item.wrapper with
  | waiting =>
    rw [hw] at h
    obtain ⟨-, heq⟩ := Option.ite_none_right_eq_some.mp h
    cases heq
    refine ⟨rfl, rfl, ?_, .inr (.inr ⟨rfl, rfl, rfl, ?_⟩)⟩ <;> split <;> rfl
  | activating | leaving =>
    rw [hw] at h
    cases h
    exact ⟨rfl, rfl, rfl, .inr (.inr ⟨rfl, rfl, rfl, rfl⟩)⟩
  | completing outcome =>
    simp only [hw] at h
    by_cases hentry : item.id ∈ s.entries
    · rw [if_pos hentry] at h
      cases h
      exact ⟨rfl, rfl, rfl, .inr (.inr ⟨rfl, rfl, rfl, rfl⟩)⟩
    · rw [if_neg hentry] at h
      cases h
      exact ⟨rfl, rfl, rfl, .inr (.inr ⟨rfl, rfl, rfl, rfl⟩)⟩
  | reaping outcome =>
    rw [hw] at h
    cases h
    exact ⟨rfl, rfl, rfl, .inl ⟨outcome, rfl, rfl, rfl⟩⟩
  | counting outcome =>
    rw [hw] at h
    cases h
    refine ⟨rfl, rfl, ?_, .inr (.inl ⟨outcome, rfl, rfl, ?_⟩)⟩ <;> split <;> rfl
  | detaching outcome =>
    rw [hw] at h
    obtain ⟨-, heq⟩ := Option.ite_none_left_eq_some.mp h
    cases heq
    exact ⟨rfl, rfl, rfl, .inr (.inr ⟨rfl, rfl, rfl, rfl⟩)⟩
  | running | ended =>
    rw [hw] at h
    cases h

theorem stepWrapper_move {move : Move} (hmove : move ≠ .go) {q : State × Wrapper}
    (h : stepWrapper p s item move = some q) :
    q.1 = s ∧ item.wrapper.idle q.2 ∧ (q.2.outcome? = some .Errored → p.yields item .Errored = true) := by
  cases move with
  | go => exact absurd rfl hmove
  | refuse =>
    simp only [stepWrapper] at h
    split at h <;> cases h
    rename_i hw
    rw [hw]
    exact ⟨rfl, ⟨rfl, rfl, rfl⟩, fun h => by cases h⟩
  | yield outcome =>
    simp only [stepWrapper] at h
    split at h
    · rename_i hw
      obtain ⟨hyields, heq⟩ := Option.ite_none_right_eq_some.mp h
      cases heq
      rw [hw]
      refine ⟨rfl, ⟨rfl, rfl, rfl⟩, fun h => ?_⟩
      cases h
      exact hyields
    · cases h
  | abort | panic =>
    simp only [stepWrapper] at h
    cases hw : item.wrapper with
    | waiting | activating | running =>
      rw [hw] at h
      obtain ⟨-, heq⟩ := Option.ite_none_right_eq_some.mp h
      cases heq
      exact ⟨rfl, ⟨rfl, rfl, rfl⟩, fun h => by cases h⟩
    | leaving outcome =>
      rw [hw] at h
      cases h <;> exact ⟨rfl, ⟨rfl, rfl, rfl⟩, fun h => by cases h⟩
    | completing | reaping | counting | detaching | ended =>
      rw [hw] at h
      cases h

theorem booked_wrapper (hp : Tallies p silent) (hi : s.items[i]? = some item) {move : Move}
    {q : State × Wrapper} (h : stepWrapper p s item move = some q) :
    Booked silent s (q.1.setItem i { item with wrapper := q.2 }) (records s (.wrapper i move) t) := by
  generalize hu : q.1.setItem i { item with wrapper := q.2 } = u
  have hset : ∀ o, q.1.items = s.items → q.1.drains = s.drains →
      u.pending o + (item.wrapper.counting? == some o).toNat =
        s.pending o + (q.2.counting? == some o).toNat := by
    intro o hitems hdrains
    have hitems' : u.items = s.items.set i { item with wrapper := q.2 } := by
      rw [← hu, State.setItem, hitems]
    have hdrains' : u.drains = s.drains := by rw [← hu, State.setItem, hdrains]
    exact pending_item hi hitems' hdrains' o
  have hcounters' : u.counters = q.1.counters := by
    rw [← hu]
    rfl
  by_cases hmove : move = .go
  · subst hmove
    obtain ⟨hitems, hdrains, -, h⟩ := stepWrapper_go h
    rw [records, hi, Option.bind_some]
    rcases h with ⟨o, hw, hcounters, hq⟩ | ⟨o, hw, hcounters, hq⟩ | ⟨hcounters, hreaping, hcounting, hq⟩
    · rw [hw]
      refine Booked.reap (hcounters'.trans hcounters) (fun o' => ?_) i
      have hpending := hset o' hitems hdrains
      rw [hw, hq] at hpending
      exact hpending
    · rw [hw]
      refine Booked.tally hp (hcounters'.trans hcounters) fun o' => ?_
      have hpending := hset o' hitems hdrains
      rw [hw, hq] at hpending
      exact hpending
    · rw [hreaping]
      refine Booked.quiet (hcounters'.trans hcounters) fun o' => ?_
      have hpending := hset o' hitems hdrains
      rw [hcounting, hq] at hpending
      exact Nat.add_right_cancel hpending
  · obtain ⟨hstate, ⟨-, hcounting, hq⟩, -⟩ := stepWrapper_move hmove h
    have hnone : records s (.wrapper i move) t = [] := by
      cases move with
      | go => exact absurd rfl hmove
      | refuse | yield | abort | panic => rfl
    rw [hnone]
    refine Booked.quiet (by rw [hcounters', hstate]) fun o' => ?_
    have hpending := hset o' (by rw [hstate]) (by rw [hstate])
    rw [hcounting, hq] at hpending
    exact Nat.add_right_cancel hpending

theorem pending_same (hi : s.items[i]? = some item) (hwrapper : item'.wrapper = item.wrapper)
    (o : TaskOutcome) : (s.setItem i item').pending o = s.pending o := by
  have hpending := pending_item (t := s.setItem i item') hi rfl rfl o
  rw [hwrapper] at hpending
  exact Nat.add_right_cancel hpending

theorem Booked.paced (hd : s.drains[n]? = some d) (hcounters : t.counters = s.counters)
    (hitems : t.items = s.items) (hdrains : t.drains = s.drains.set n d')
    (hold : d.pc.counting? = none) (hnew : d'.pc.counting? = none) : Booked silent s t [] := by
  refine .quiet hcounters fun o => ?_
  have hpending := pending_drain hd hitems hdrains o
  rw [hold, hnew] at hpending
  exact Nat.add_right_cancel hpending

theorem Booked.flagged (hd : s.drains[n]? = some d) (hi : s.items[i]? = some item)
    (hwrapper : item'.wrapper = item.wrapper) (hold : d.pc.counting? = none)
    (hnew : d'.pc.counting? = none) : Booked silent s ((s.setItem i item').setDrain n d') [] := by
  refine .quiet rfl fun o => ?_
  have hpending := pending_drain (s := s.setItem i item') (t := (s.setItem i item').setDrain n d') hd rfl
    rfl o
  rw [hold, hnew, pending_same hi hwrapper] at hpending
  exact Nat.add_right_cancel hpending

theorem booked_drain (hp : Tallies p silent) (hd : s.drains[n]? = some d) {next : Nat}
    (h : stepDrain p s n d next = some t) : Booked silent s t d.pc.reaping?.toList := by
  unfold stepDrain at h
  cases hpc : d.pc with
  | called ids =>
    rw [hpc] at h
    cases h
    exact .paced hd rfl rfl rfl (by rw [hpc]; rfl) rfl
  | cancelling left =>
    rw [hpc] at h
    cases left with
    | nil =>
      cases h
      exact .paced hd rfl rfl rfl (by rw [hpc]; rfl) rfl
    | cons id left =>
      obtain ⟨item, hi, rfl⟩ := Option.map_eq_some_iff.mp h
      exact .flagged hd hi rfl (by rw [hpc]; rfl) rfl
  | joining =>
    simp only [hpc] at h
    by_cases hjoins : d.joins = []
    · rw [if_pos hjoins] at h
      cases h
      exact .paced hd rfl rfl rfl (by rw [hpc]; rfl) rfl
    · rw [if_neg hjoins] at h
      obtain ⟨-, heq⟩ := Option.ite_none_right_eq_some.mp h
      obtain ⟨joined, -, rfl⟩ := Option.map_eq_some_iff.mp heq
      exact .paced hd rfl rfl rfl (by rw [hpc]; rfl) rfl
  | aborting left =>
    rw [hpc] at h
    cases left with
    | nil =>
      cases h
      exact .paced hd rfl rfl rfl (by rw [hpc]; rfl) rfl
    | cons id left =>
      obtain ⟨item, hi, rfl⟩ := Option.map_eq_some_iff.mp h
      exact .flagged hd hi rfl (by rw [hpc]; rfl) rfl
  | reaping id outcome =>
    rw [hpc] at h
    cases h
    refine .reap rfl (fun o => ?_) id
    have hpending := pending_drain (t := { s.setDrain n { d with pc := .counting id outcome } with
      counters := s.counters.reap }) hd rfl rfl o
    rw [hpc] at hpending
    exact hpending
  | counting id outcome =>
    rw [hpc] at h
    cases h
    refine .tally hp rfl fun o => ?_
    have hnew : (if p.owned = true then { d with pc := .detaching id outcome }
        else d.recorded outcome : Drain).pc.counting? = none := by
      split <;> rfl
    have hpending := pending_drain (t := { s.setDrain n (if p.owned = true then
      { d with pc := .detaching id outcome } else d.recorded outcome) with
      counters := p.tally s.counters outcome }) hd rfl rfl o
    rw [hpc, hnew] at hpending
    exact hpending
  | detaching id outcome =>
    rw [hpc] at h
    obtain ⟨item, hi, h⟩ := Option.bind_eq_some_iff.mp h
    obtain ⟨-, heq⟩ := Option.ite_none_left_eq_some.mp h
    cases heq
    exact .paced hd rfl rfl rfl (by rw [hpc]; rfl) rfl
  | returned =>
    rw [hpc] at h
    cases h

theorem pending_opened (ledger : List (FiberId × Nat)) (ids : List Nat) (o : TaskOutcome) :
    ({ s with ledger := ledger, drains := s.drains ++ [{ pc := .called ids }] } : State).pending o =
      s.pending o := by
  simp [State.pending, DrainPc.counting?]

theorem booked_step (hp : Tallies p silent) (hids : ∀ (i : Nat) (item : Item), s.items[i]? = some item →
    item.id = i) {l : Label} (h : step p s l = some t) : Booked silent s t (records s l t) := by
  cases l with
  | spawn owner cleanup activation =>
    obtain ⟨-, heq⟩ := Option.ite_none_left_eq_some.mp h
    cases heq
    refine .quiet rfl fun o => ?_
    simp [State.pending, Wrapper.counting?]
  | spawner id =>
    obtain ⟨item, hi, hspawner⟩ := Option.bind_eq_some_iff.mp h
    obtain rfl := hids id item hi
    unfold stepSpawner at hspawner
    split at hspawner <;> cases hspawner
    · exact .quiet rfl (pending_same hi rfl)
    · exact .quiet rfl (pending_same hi rfl)
    · exact .quiet rfl (pending_same hi rfl)
    · exact .quiet rfl (pending_same hi rfl)
  | cancel id =>
    obtain ⟨item, hi, rfl⟩ := Option.map_eq_some_iff.mp h
    exact .quiet rfl (pending_same hi rfl)
  | wrapper id move =>
    obtain ⟨item, hi, h⟩ := Option.bind_eq_some_iff.mp h
    obtain ⟨q, hq, rfl⟩ := Option.map_eq_some_iff.mp h
    exact booked_wrapper hp hi hq
  | drain ids =>
    cases h
    exact .quiet rfl (pending_opened s.ledger ids)
  | dispose owner =>
    obtain ⟨-, heq⟩ := Option.ite_none_left_eq_some.mp h
    cases heq
    exact .quiet rfl (pending_opened _ _)
  | drainer n next =>
    obtain ⟨d, hd, h⟩ := Option.bind_eq_some_iff.mp h
    rw [records, hd, Option.bind_some]
    exact booked_drain hp hd h
  | deadline n =>
    obtain ⟨d, hd, h⟩ := Option.bind_eq_some_iff.mp h
    obtain ⟨⟨hpc, -, -⟩, heq⟩ := Option.ite_none_right_eq_some.mp h
    cases heq
    exact .paced hd rfl rfl rfl (by rw [hpc]; rfl) rfl
  | forget owner =>
    obtain ⟨-, heq⟩ := Option.ite_none_left_eq_some.mp h
    cases heq
    exact .quiet rfl fun _ => rfl

/-! ## Tasks never end in an error -/

structure Errorless (s : State) (log : List (Nat × TaskOutcome)) : Prop where
  wrappers : ∀ item ∈ s.items, item.wrapper.outcome? ≠ some .Errored
  drains : ∀ d ∈ s.drains, d.pc.outcome? ≠ some .Errored
  log : ∀ r ∈ log, r.2 ≠ .Errored

theorem Errorless.moved (hs : Errorless s log) (hi : s.items[i]? = some item)
    (hitems : t.items = s.items.set i item') (hdrains : t.drains = s.drains)
    (hwrapper : item'.wrapper.outcome? ≠ some .Errored) : Errorless t log where
  wrappers other hother := by
    rw [hitems] at hother
    rcases (mem_set hi).mp hother with rfl | ⟨j, -, hj⟩
    · exact hwrapper
    · exact hs.wrappers other (List.mem_of_getElem? hj)
  drains := hdrains ▸ hs.drains
  log := hs.log

theorem Errorless.turned (hs : Errorless s log) (hitems : t.items = s.items)
    (hdrains : t.drains = s.drains.set n d') (hpc : d'.pc.outcome? ≠ some .Errored) :
    Errorless t log where
  wrappers := hitems ▸ hs.wrappers
  drains d hd := by
    rw [hdrains] at hd
    rcases List.mem_or_eq_of_mem_set hd with hd | rfl
    · exact hs.drains d hd
    · exact hpc
  log := hs.log

theorem Wrapper.reaping_outcome {w : Wrapper} {o : TaskOutcome} (h : w.reaping? = some o) :
    w.outcome? = some o := by
  cases w with
  | reaping outcome => exact h
  | waiting | activating | running | completing | counting | detaching | leaving | ended => cases h

theorem DrainPc.reaping_outcome {pc : DrainPc} {r : Nat × TaskOutcome} (h : pc.reaping? = some r) :
    pc.outcome? = some r.2 := by
  cases pc with
  | reaping id outcome =>
    cases h
    rfl
  | called | cancelling | joining | aborting | counting | detaching | returned => cases h

theorem Errorless.recorded (hs : Errorless s log) (l : Label) :
    ∀ r ∈ log ++ records s l t, r.2 ≠ .Errored := by
  intro r hr
  rcases List.mem_append.mp hr with hr | hr
  · exact hs.log r hr
  · unfold records at hr
    split at hr
    · obtain ⟨o, ho, rfl⟩ := Option.map_eq_some_iff.mp (Option.mem_toList.mp hr)
      obtain ⟨item, hi, ho⟩ := Option.bind_eq_some_iff.mp ho
      rintro rfl
      exact hs.wrappers item (List.mem_of_getElem? hi) (Wrapper.reaping_outcome ho)
    · obtain ⟨d, hd, hr⟩ := Option.bind_eq_some_iff.mp (Option.mem_toList.mp hr)
      intro herrored
      refine hs.drains d (List.mem_of_getElem? hd) ?_
      rw [DrainPc.reaping_outcome hr, herrored]
    · cases hr

theorem errorless_wrapper (hp : ∀ item, p.yields item .Errored = false) (hs : Errorless s log)
    (hi : s.items[i]? = some item) {move : Move} {q : State × Wrapper}
    (h : stepWrapper p s item move = some q) :
    Errorless (q.1.setItem i { item with wrapper := q.2 }) log := by
  have hitem := hs.wrappers item (List.mem_of_getElem? hi)
  by_cases hmove : move = .go
  · subst hmove
    obtain ⟨hitems, hdrains, houtcome, -⟩ := stepWrapper_go h
    refine hs.moved hi (by rw [State.setItem, hitems]) hdrains ?_
    change q.2.outcome? ≠ _
    rwa [houtcome]
  · obtain ⟨hstate, -, hyields⟩ := stepWrapper_move hmove h
    refine hs.moved hi (by rw [State.setItem, hstate]) (by rw [State.setItem, hstate]) fun herrored => ?_
    have hnever := hp item
    rw [hyields herrored] at hnever
    cases hnever

theorem Errorless.joined (hs : Errorless s log) (hi : s.items[i]? = some item) {joined : Joined}
    (h : item.wrapper.joined? = some joined) : joined.outcome ≠ .Errored := by
  intro herrored
  cases hw : item.wrapper with
  | ended joined' =>
    rw [hw] at h
    cases h
    refine hs.wrappers item (List.mem_of_getElem? hi) ?_
    rw [hw, ← herrored]
    rfl
  | waiting | activating | running | completing | reaping | counting | detaching | leaving =>
    rw [hw] at h
    cases h

theorem errorless_drain (hs : Errorless s log) (hd : s.drains[n]? = some d) {next : Nat}
    (h : stepDrain p s n d next = some t) : Errorless t log := by
  have hold := hs.drains d (List.mem_of_getElem? hd)
  unfold stepDrain at h
  cases hpc : d.pc with
  | called ids =>
    rw [hpc] at h
    cases h
    exact hs.turned rfl rfl nofun
  | cancelling left =>
    rw [hpc] at h
    cases left with
    | nil =>
      cases h
      exact hs.turned rfl rfl nofun
    | cons id left =>
      obtain ⟨item, hi, rfl⟩ := Option.map_eq_some_iff.mp h
      have hflagged : Errorless (s.setItem id { item with
          cancelled := item.cancelled || p.cancels item }) log :=
        hs.moved hi rfl rfl (hs.wrappers item (List.mem_of_getElem? hi))
      exact hflagged.turned rfl rfl nofun
  | joining =>
    simp only [hpc] at h
    by_cases hjoins : d.joins = []
    · rw [if_pos hjoins] at h
      cases h
      exact hs.turned rfl rfl nofun
    · rw [if_neg hjoins] at h
      obtain ⟨-, heq⟩ := Option.ite_none_right_eq_some.mp h
      obtain ⟨joined, hjoined, rfl⟩ := Option.map_eq_some_iff.mp heq
      obtain ⟨item, hi, hjoined⟩ := Option.bind_eq_some_iff.mp hjoined
      exact hs.turned rfl rfl fun h => hs.joined hi hjoined (Option.some.inj h)
  | aborting left =>
    rw [hpc] at h
    cases left with
    | nil =>
      cases h
      exact hs.turned rfl rfl nofun
    | cons id left =>
      obtain ⟨item, hi, rfl⟩ := Option.map_eq_some_iff.mp h
      have hflagged : Errorless (s.setItem id { item with aborted := true }) log :=
        hs.moved hi rfl rfl (hs.wrappers item (List.mem_of_getElem? hi))
      exact hflagged.turned rfl rfl nofun
  | reaping id outcome =>
    rw [hpc] at h hold
    cases h
    exact hs.turned rfl rfl hold
  | counting id outcome =>
    rw [hpc] at h hold
    cases h
    refine hs.turned rfl rfl ?_
    split
    · exact hold
    · exact nofun
  | detaching id outcome =>
    rw [hpc] at h
    obtain ⟨item, hi, h⟩ := Option.bind_eq_some_iff.mp h
    obtain ⟨-, heq⟩ := Option.ite_none_left_eq_some.mp h
    cases heq
    exact hs.turned rfl rfl nofun
  | returned =>
    rw [hpc] at h
    cases h

theorem Errorless.opened (hs : Errorless s log) (ledger : List (FiberId × Nat)) (ids : List Nat) :
    Errorless { s with ledger := ledger, drains := s.drains ++ [{ pc := .called ids }] } log where
  wrappers := hs.wrappers
  drains d hd := by
    rcases List.mem_append.mp hd with hd | hd
    · exact hs.drains d hd
    · rw [List.mem_singleton.mp hd]
      exact nofun
  log := hs.log

theorem errorless_step (hp : ∀ item, p.yields item .Errored = false) (hs : Errorless s log)
    (hids : ∀ (i : Nat) (item : Item), s.items[i]? = some item → item.id = i) {l : Label}
    (h : step p s l = some t) : Errorless t (log ++ records s l t) := by
  suffices hstate : Errorless t log from ⟨hstate.wrappers, hstate.drains, hs.recorded l⟩
  cases l with
  | spawn owner cleanup activation =>
    obtain ⟨-, heq⟩ := Option.ite_none_left_eq_some.mp h
    cases heq
    refine ⟨fun item hitem => ?_, hs.drains, hs.log⟩
    rcases List.mem_append.mp hitem with hold | hnew
    · exact hs.wrappers item hold
    · rw [List.mem_singleton.mp hnew]
      exact nofun
  | spawner id =>
    obtain ⟨item, hi, hspawner⟩ := Option.bind_eq_some_iff.mp h
    obtain rfl := hids id item hi
    have hitem := hs.wrappers item (List.mem_of_getElem? hi)
    unfold stepSpawner at hspawner
    split at hspawner <;> cases hspawner
    · exact hs.moved hi rfl rfl hitem
    · exact hs.moved hi rfl rfl hitem
    · exact hs.moved hi rfl rfl hitem
    · exact hs.moved hi rfl rfl hitem
  | cancel id =>
    obtain ⟨item, hi, rfl⟩ := Option.map_eq_some_iff.mp h
    exact hs.moved hi rfl rfl (hs.wrappers item (List.mem_of_getElem? hi))
  | wrapper id move =>
    obtain ⟨item, hi, h⟩ := Option.bind_eq_some_iff.mp h
    obtain ⟨q, hq, rfl⟩ := Option.map_eq_some_iff.mp h
    exact errorless_wrapper hp hs hi hq
  | drain ids =>
    cases h
    exact hs.opened s.ledger ids
  | dispose owner =>
    obtain ⟨-, heq⟩ := Option.ite_none_left_eq_some.mp h
    cases heq
    exact hs.opened _ _
  | drainer n next =>
    obtain ⟨d, hd, h⟩ := Option.bind_eq_some_iff.mp h
    exact errorless_drain hs hd h
  | deadline n =>
    obtain ⟨d, hd, h⟩ := Option.bind_eq_some_iff.mp h
    obtain ⟨-, heq⟩ := Option.ite_none_right_eq_some.mp h
    cases heq
    exact hs.turned rfl rfl nofun
  | forget owner =>
    obtain ⟨-, heq⟩ := Option.ite_none_left_eq_some.mp h
    cases heq
    exact ⟨hs.wrappers, hs.drains, hs.log⟩

/-! ## Runs -/

theorem balanced_reach (hp : Tallies p silent) {q : State × List (Nat × TaskOutcome)}
    (h : Reach (recording (step p) records) anyStep ({}, []) q) : Balanced silent q.1 q.2 := by
  induction h with
  | refl => exact ⟨rfl, fun o _ => by cases o <;> rfl⟩
  | @tail q' q'' l hreach _ hstep ih =>
    obtain ⟨hstep, hlog⟩ := recording_eq_some hstep
    have hsound : Sound p False q'.1 q'.2 := sound_reach (hreach.mono fun _ _ _ h => h.elim)
    rw [hlog]
    exact ih.step (booked_step hp hsound.ids hstep)

theorem errorless_reach (hp : ∀ item, p.yields item .Errored = false)
    {q : State × List (Nat × TaskOutcome)}
    (h : Reach (recording (step p) records) anyStep ({}, []) q) : Errorless q.1 q.2 := by
  induction h with
  | refl => exact ⟨fun _ h => (List.not_mem_nil h).elim, fun _ h => (List.not_mem_nil h).elim,
      fun _ h => (List.not_mem_nil h).elim⟩
  | @tail q' q'' l hreach _ hstep ih =>
    obtain ⟨hstep, hlog⟩ := recording_eq_some hstep
    have hsound : Sound p False q'.1 q'.2 := sound_reach (hreach.mono fun _ _ _ h => h.elim)
    rw [hlog]
    exact errorless_step hp ih hsound.ids hstep

end Cordis.Supervision
