import Cordis.Proof.Recorded
import Mathlib.Algebra.BigOperators.Group.Multiset.Basic

/-!
# Every item is accounted for

Between two recordings an item is live, with a drain or in the record, and in one of these once. What
has come to rest is recorded.
-/

namespace Cordis.Supervision

open Machine Threads

/-- No outcome is being recorded. -/
structure State.Quiet (s : State) : Prop where
  wrappers : ∀ item ∈ s.items, item.wrapper.recording = false
  drains : ∀ d ∈ s.drains, d.pc.subject? = none

/-- A drain has the entry of the item and has not joined its handle. -/
def State.Draining (s : State) (id : Nat) : Prop := ∃ d ∈ s.drains, id ∈ d.joins

structure Accounted (s : State) (log : List (Nat × TaskOutcome)) : Prop where
  once : (recorded log).Nodup
  spawned : ∀ id ∈ recorded log, id < s.items.length
  /-- A drain has recorded what it has taken when it returns. -/
  drained : ∀ d ∈ s.drains, d.pc = .returned → d.taken ⊆ recorded log
  /-- The entry of a worker may not be inserted yet. -/
  each : s.Quiet → ∀ i item, s.items[i]? = some item →
    item.spawner = .inserting ∨ i ∈ s.entries ∨ s.Draining i ∨ i ∈ recorded log
  total : s.Quiet → s.items.length = s.items.countP (·.spawner == .inserting) + s.entries.length +
    (s.drains.map (·.joins.length)).sum + s.counters.reaped
  /-- A finished item is not live, and no ledger lists it that no drain has to clear of it. -/
  finished : s.Quiet → ∀ i item, s.items[i]? = some item → item.wrapper.present = false →
    i ∉ s.entries ∧ ∀ owner, (owner, i) ∈ s.ledger → s.Draining i
  /-- Everything is recorded once everything has come to rest. -/
  settled : (∀ item ∈ s.items, item.wrapper.joined?.isSome) → (∀ d ∈ s.drains, d.pc = .returned) →
    (recorded log).Perm (List.range s.items.length)

variable {p : Policy} {own : Prop} {silent : TaskOutcome} {s : State}
  {log : List (Nat × TaskOutcome)} {item : Item} {d : Drain} {i : Nat}

theorem mem_sum_map {α β : Type*} {f : α → Multiset β} {l : List α} {b : β} :
    b ∈ (l.map f).sum ↔ ∃ a ∈ l, b ∈ f a := by
  induction l with
  | nil => simp
  | cons a l ih => simp [ih]

theorem Sound.once (hs : Sound p own s log) : (recorded log).Nodup := by
  have hle : (recorded log : Multiset Nat) ≤ held s log := Multiset.le_add_left _ _
  rw [hs.books] at hle
  exact Multiset.coe_nodup.mp (Multiset.nodup_of_le hle (Multiset.nodup_range _))

theorem Sound.spawned_of_recorded (hs : Sound p own s log) (h : i ∈ recorded log) :
    i < s.items.length := by
  have hheld : i ∈ held s log := Multiset.mem_add.mpr (.inr h)
  rwa [hs.books, Multiset.mem_range] at hheld

theorem Sound.drained (hs : Sound p own s log) (hd : d ∈ s.drains) (hpc : d.pc = .returned) :
    d.taken ⊆ recorded log := by
  intro id hid
  rcases hs.rest d hd id hid with hheld | hrecorded
  · rw [Drain.held, hs.returned d hd hpc, hpc] at hheld
    cases hheld
  · exact hrecorded

theorem State.Quiet.reaping (hq : s.Quiet) (hitem : item ∈ s.items) : item.wrapper.reaping? = none := by
  have h := hq.wrappers item hitem
  cases hw : item.wrapper with
  | reaping =>
    rw [hw] at h
    cases h
  | waiting | activating | running | completing | counting | detaching | leaving | ended => rfl

/-- Between two recordings a wrapper has charge of nothing, and a spawner of what it has not inserted. -/
theorem State.Quiet.held_item (hq : s.Quiet) (hitem : item ∈ s.items) :
    item.held = if item.spawner = .inserting then {item.id} else 0 := by
  rw [Item.held, hq.reaping hitem]
  exact add_zero _

theorem State.Quiet.held_drain (hq : s.Quiet) (hd : d ∈ s.drains) : d.held = d.joins := by
  have h := hq.drains d hd
  rw [Drain.held]
  cases hpc : d.pc with
  | reaping =>
    rw [hpc] at h
    cases h
  | called | cancelling | joining | aborting | counting | detaching | returned => exact add_zero _

theorem Sound.each (hs : Sound p own s log) (hq : s.Quiet) (hi : s.items[i]? = some item) :
    item.spawner = .inserting ∨ i ∈ s.entries ∨ s.Draining i ∨ i ∈ recorded log := by
  have hheld : i ∈ held s log := by
    rw [hs.books, Multiset.mem_range]
    exact (List.getElem?_eq_some_iff.mp hi).1
  simp only [held, Multiset.mem_add, Multiset.mem_coe, mem_sum_map] at hheld
  rcases hheld with ((⟨other, hother, hheld⟩ | hentry) | ⟨d, hd, hheld⟩) | hrecorded
  · left
    rw [hq.held_item hother] at hheld
    split at hheld
    · rename_i hinserting
      obtain ⟨j, hj⟩ := List.mem_iff_getElem?.mp hother
      rw [hs.id_eq hj] at hheld
      obtain rfl := Multiset.mem_singleton.mp hheld
      obtain rfl := Option.some.inj (hi.symm.trans hj)
      exact hinserting
    · cases hheld
  · exact .inr (.inl hentry)
  · rw [hq.held_drain hd] at hheld
    exact .inr (.inr (.inl ⟨d, hd, hheld⟩))
  · exact .inr (.inr (.inr hrecorded))

theorem card_held_items (hq : s.Quiet) :
    (s.items.map Item.held).sum.card = s.items.countP (·.spawner == .inserting) := by
  have hcard : ∀ l : List Item, l ⊆ s.items →
      (l.map Item.held).sum.card = l.countP (·.spawner == .inserting) := by
    intro l hl
    induction l with
    | nil => rfl
    | cons item l ih =>
      obtain ⟨hitem, hrest⟩ := List.cons_subset.mp hl
      rw [List.map_cons, List.sum_cons, Multiset.card_add, ih hrest, hq.held_item hitem, List.countP_cons,
        Nat.add_comm]
      cases item.spawner <;> rfl
  exact hcard s.items (List.Subset.refl _)

theorem card_held_drains (hq : s.Quiet) :
    (s.drains.map Drain.held).sum.card = (s.drains.map (·.joins.length)).sum := by
  have hcard : ∀ l : List Drain, l ⊆ s.drains →
      (l.map Drain.held).sum.card = (l.map (·.joins.length)).sum := by
    intro l hl
    induction l with
    | nil => rfl
    | cons d l ih =>
      obtain ⟨hd, hrest⟩ := List.cons_subset.mp hl
      rw [List.map_cons, List.sum_cons, Multiset.card_add, ih hrest, hq.held_drain hd, List.map_cons,
        List.sum_cons, Multiset.coe_card]
  exact hcard s.drains (List.Subset.refl _)

theorem Sound.total (hs : Sound p own s log) (hb : Balanced silent s log) (hq : s.Quiet) :
    s.items.length = s.items.countP (·.spawner == .inserting) + s.entries.length +
      (s.drains.map (·.joins.length)).sum + s.counters.reaped := by
  have hcard := congrArg Multiset.card hs.books
  rw [Multiset.card_range] at hcard
  rw [← hcard, held, Multiset.card_add, Multiset.card_add, Multiset.card_add, card_held_items hq,
    card_held_drains hq, Multiset.coe_card, Multiset.coe_card, hb.reaped, recorded, List.length_map]

theorem Sound.listed (hs : Sound p own s log) (hq : s.Quiet) {owner : FiberId}
    (h : (owner, i) ∈ s.ledger) : i ∈ s.entries ∨ s.Draining i := by
  obtain ⟨-, item, hfound, -, hentry | hrecording | ⟨d, hd, hjoins | hsubject⟩⟩ := hs.ledger owner i h
  · exact .inl hentry
  · rw [hq.wrappers item (List.mem_of_getElem? hfound)] at hrecording
    cases hrecording
  · exact .inr ⟨d, hd, hjoins⟩
  · rw [hq.drains d hd] at hsubject
    cases hsubject

theorem Sound.settled (hs : Sound p own s log)
    (hended : ∀ item ∈ s.items, item.wrapper.joined?.isSome)
    (hreturned : ∀ d ∈ s.drains, d.pc = .returned) :
    (recorded log).Perm (List.range s.items.length) := by
  have hwrapper : ∀ item ∈ s.items, item.wrapper.recording = false ∧ item.wrapper.present = false ∧
      item.wrapper ≠ .waiting := by
    intro item hitem
    have h := hended item hitem
    cases hw : item.wrapper with
    | ended => exact ⟨rfl, rfl, nofun⟩
    | waiting | activating | running | completing | reaping | counting | detaching | leaving =>
      rw [hw] at h
      cases h
  have hq : s.Quiet := by
    refine ⟨fun item hitem => (hwrapper item hitem).1, fun d hd => ?_⟩
    rw [hreturned d hd]
    rfl
  refine (List.perm_ext_iff_of_nodup hs.once List.nodup_range).mpr fun i => ?_
  rw [List.mem_range]
  refine ⟨hs.spawned_of_recorded, fun hlt => ?_⟩
  have hi := List.getElem?_eq_getElem hlt
  have hitem := List.mem_of_getElem? hi
  obtain ⟨-, hgone, hpast⟩ := hwrapper _ hitem
  rcases hs.each hq hi with hinserting | hentry | ⟨d, hd, hjoins⟩ | hrecorded
  · exact absurd (hs.fresh _ hitem hinserting).2.2.1 hpast
  · exact absurd hentry (hs.present_gone hi hgone)
  · rw [hs.returned d hd (hreturned d hd)] at hjoins
    cases hjoins
  · exact hrecorded

theorem accounted_reach (hp : Tallies p silent) {q : State × List (Nat × TaskOutcome)}
    (h : Reach (recording (step p) records) anyStep ({}, []) q) : Accounted q.1 q.2 := by
  have hs : Sound p False q.1 q.2 := sound_reach (h.mono fun _ _ _ h => h.elim)
  have hb := balanced_reach hp h
  refine ⟨hs.once, fun id hid => hs.spawned_of_recorded hid, fun d hd hpc => hs.drained hd hpc,
    fun hq i item hi => hs.each hq hi, hs.total hb, fun hq i item hi hgone => ?_, hs.settled⟩
  have hentry := hs.present_gone hi hgone
  exact ⟨hentry, fun owner hlisted => (hs.listed hq hlisted).resolve_left hentry⟩

theorem Sound.inserting_none (hs : Sound taskSupervisor own s log) :
    s.items.countP (·.spawner == .inserting) = 0 := by
  rw [List.countP_eq_zero]
  intro item hitem hinserting
  have h := (hs.fresh item hitem (eq_of_beq hinserting)).1
  cases h

theorem length_eq_counts (log : List (Nat × TaskOutcome)) (h : ∀ r ∈ log, r.2 ≠ .Errored) :
    log.length = (log.map (·.2)).count .Completed + (log.map (·.2)).count .Cancelled +
      (log.map (·.2)).count .Panicked + (log.map (·.2)).count .Aborted := by
  induction log with
  | nil => rfl
  | cons r log ih =>
    obtain ⟨hr, hlog⟩ := List.forall_mem_cons.mp h
    have hrest := ih hlog
    obtain ⟨id, outcome⟩ := r
    cases outcome with
    | Errored => exact absurd rfl hr
    | Completed | Cancelled | Panicked | Aborted =>
      simp only [List.length_cons, List.map_cons, List.count_cons, hrest, beq_self_eq_true, if_true,
        reduceCtorEq, beq_iff_eq, if_false]
      omega

theorem Wrapper.counting_recording {w : Wrapper} {o : TaskOutcome} (h : w.counting? = some o) :
    w.recording = true := by
  cases w with
  | counting => rfl
  | waiting | activating | running | completing | reaping | detaching | leaving | ended => cases h

theorem DrainPc.counting_subject {pc : DrainPc} {o : TaskOutcome} (h : pc.counting? = some o) :
    pc.subject? ≠ none := by
  cases pc with
  | counting => exact nofun
  | called | cancelling | joining | aborting | reaping | detaching | returned => cases h

theorem tasks_balanced (hb : Balanced .Errored s log) (he : Errorless s log) (hq : s.Quiet) :
    s.counters.reaped = s.counters.completed + s.counters.cancelled + s.counters.panicked +
      s.counters.aborted := by
  have hpending : ∀ o, s.pending o = 0 := by
    intro o
    unfold State.pending
    rw [Nat.add_eq_zero_iff, List.countP_eq_zero, List.countP_eq_zero]
    refine ⟨fun item hitem h => ?_, fun d hd h => ?_⟩
    · have hrecording := hq.wrappers item hitem
      rw [Wrapper.counting_recording (eq_of_beq h)] at hrecording
      cases hrecording
    · exact DrainPc.counting_subject (eq_of_beq h) (hq.drains d hd)
  have hof : ∀ o, o ≠ .Errored → s.counters.of o = (log.map (·.2)).count o := by
    intro o ho
    rw [← hb.tallied o ho, hpending, Nat.add_zero]
  rw [hb.reaped, length_eq_counts log he.log, ← hof .Completed nofun, ← hof .Cancelled nofun,
    ← hof .Panicked nofun, ← hof .Aborted nofun]
  rfl

/-- Whichever side removes the entry of an item, its outcome is recorded, and recorded once: of the tasks
and of the workers, whatever `cancel_all` is called with. If it is called with ledgers only, as it is in
disposals, then no ledger lists a task that has finished. -/
theorem terminal_outcomes_recorded_once :
    (∀ q, Reach (recording (step taskSupervisor) records) anyStep ({}, []) q →
      Accounted q.1 q.2 ∧
        (q.1.Quiet →
          q.1.items.length = q.1.entries.length + (q.1.drains.map (·.joins.length)).sum +
              q.1.counters.reaped ∧
            q.1.counters.reaped = q.1.counters.completed + q.1.counters.cancelled +
              q.1.counters.panicked + q.1.counters.aborted)) ∧
      (∀ q, Reach (recording (step taskSupervisor) records) (fun _ l => ∀ ids, l ≠ .drain ids) ({}, []) q →
        q.1.Quiet → ∀ i item, q.1.items[i]? = some item → item.wrapper.present = false →
          i ∉ q.1.entries ∧ ∀ owner, (owner, i) ∉ q.1.ledger) ∧
      ∀ q, Reach (recording (step runtimeWorkerSupervisor) records) anyStep ({}, []) q →
        Accounted q.1 q.2 := by
  refine ⟨fun q h => ⟨accounted_reach taskSupervisor_tallies h, fun hq => ?_⟩,
    fun q h hq i item hi hgone => ?_, fun q h => accounted_reach runtimeWorkerSupervisor_tallies h⟩
  · have hs : Sound taskSupervisor False q.1 q.2 := sound_reach (h.mono fun _ _ _ h => h.elim)
    have hb := balanced_reach taskSupervisor_tallies h
    have htotal := hs.total hb hq
    rw [hs.inserting_none, Nat.zero_add] at htotal
    exact ⟨htotal, tasks_balanced hb (errorless_reach (fun _ => rfl) h) hq⟩
  · have hs : Sound taskSupervisor True q.1 q.2 := sound_reach (h.mono fun _ _ h _ => h)
    have hentry := hs.present_gone hi hgone
    refine ⟨hentry, fun owner hlisted => ?_⟩
    rcases hs.listed hq hlisted with h | ⟨d, hd, hjoins⟩
    · exact hentry h
    · exact (hs.idle trivial rfl d hd i (hs.handles d hd hjoins)).unlisted owner hlisted

instance (l : Label) : Decidable (∀ ids, l ≠ .drain ids) :=
  match l with
  | .drain ids => isFalse fun h => h ids rfl
  | .spawn .. | .spawner _ | .cancel _ | .wrapper .. | .dispose _ | .drainer .. | .deadline _
  | .forget _ => isTrue fun ids => by simp

/-- Two tasks of a Fiber, of which one completes before the disposal takes the entries, and the other
panics in front of the deadline. -/
def racedDisposal : List Label :=
  [.spawn 1 false false, .spawner 0, .spawner 0, .spawner 0, .spawn 1 false false, .spawner 1,
    .spawner 1, .spawner 1, .wrapper 0 .go, .wrapper 0 (.yield .Completed), .wrapper 1 .go,
    .dispose 1, .wrapper 0 .go, .drainer 0 0, .wrapper 1 (.yield .Panicked), .wrapper 0 .go,
    .wrapper 1 .go, .drainer 0 0, .drainer 0 0, .deadline 0, .drainer 0 0, .drainer 0 0,
    .wrapper 0 .go, .wrapper 1 .go, .drainer 0 1, .drainer 0 0, .wrapper 0 .go, .drainer 0 0,
    .drainer 0 0, .drainer 0 0, .wrapper 0 .go]

theorem terminal_outcomes_recorded_once_raced :
    ∃ q : State × List (Nat × TaskOutcome), Accounted q.1 q.2 ∧ q.2 = [(0, .Completed), (1, .Panicked)] ∧
      q.1.counters = { reaped := 2, completed := 1, panicked := 1 } ∧
      ∀ (i : Nat) (item : Item), q.1.items[i]? = some item → item.wrapper.present = false →
        i ∉ q.1.entries ∧ ∀ owner, (owner, i) ∉ q.1.ledger := by
  obtain ⟨q, hq⟩ : ∃ q, runIf (recording (step taskSupervisor) records)
      (fun _ l => ∀ ids, l ≠ .drain ids) ({}, []) racedDisposal = some q := ⟨_, rfl⟩
  have hreach := reach_of_runIf hq
  refine ⟨q, (terminal_outcomes_recorded_once.1 q hreach.weaken).1, ?_, ?_,
    terminal_outcomes_recorded_once.2.1 q hreach ?_⟩
  · cases hq
    rfl
  · cases hq
    rfl
  · cases hq
    refine ⟨?_, ?_⟩ <;> decide

end Cordis.Supervision
