import Cordis.Library.History
import Cordis.Library.Threads
import Cordis.Runtime.Supervision
import Mathlib.Data.Multiset.Range
import Mathlib.Algebra.Order.Group.Multiset
import Mathlib.Tactic.Abel

/-!
# Every outcome is recorded once

Whoever takes the entry of an item out of the table has to record its outcome. So each item is at every
moment in one of these hands: with a spawner that has not inserted its entry, in the table, with the
wrapper that has removed its own entry, with a drain that has not joined or not recorded it, or in the
record. `held` is the multiset of the items in all hands, and in every reachable state it is that of the
items that were spawned.
-/

namespace Cordis.Supervision

open Machine Threads

/-- The items of which an item's own spawner or wrapper has charge. -/
def Item.held (item : Item) : Multiset Nat :=
  (if item.spawner = .inserting then {item.id} else 0) +
    if item.wrapper.reaping?.isSome then {item.id} else 0

def DrainPc.held : DrainPc → Multiset Nat
  | reaping id _ => {id}
  | _ => 0

/-- The items of which a drain has charge. -/
def Drain.held (d : Drain) : Multiset Nat := d.joins + d.pc.held

/-- The items that are in the record. -/
def recorded (log : List (Nat × TaskOutcome)) : List Nat := log.map (·.1)

/-- All hands. -/
def held (s : State) (log : List (Nat × TaskOutcome)) : Multiset Nat :=
  (s.items.map Item.held).sum + s.entries + (s.drains.map Drain.held).sum + recorded log

/-- The item whose outcome a drain records. -/
def DrainPc.subject? : DrainPc → Option Nat
  | reaping id _ | counting id _ | detaching id _ => some id
  | _ => none

/-- The drain has the entry of the item and is not done with it. -/
def Drain.has (d : Drain) (id : Nat) : Prop := id ∈ d.joins ∨ d.pc.subject? = some id

/-- The wrapper has not tried to remove its entry, nor was it dropped. -/
def Wrapper.present : Wrapper → Bool
  | waiting | activating | running | completing _ => true
  | _ => false

/-- The wrapper has removed its entry and records the outcome. -/
def Wrapper.recording : Wrapper → Bool
  | reaping _ | counting _ | detaching _ => true
  | _ => false

/-- The item is live, or whoever has removed its entry is not done with it. -/
def Unfinished (s : State) (id : Nat) (item : Item) : Prop :=
  id ∈ s.entries ∨ item.wrapper.recording = true ∨ ∃ d ∈ s.drains, d.has id

variable {p : Policy} {own : Prop} {s t : State} {log log' : List (Nat × TaskOutcome)}
  {item item' : Item} {d d' : Drain} {i n : Nat}

/-- What a task in a ledger is doing. -/
structure Listed (s : State) (owner : FiberId) (id : Nat) (item : Item) : Prop where
  found : s.items[id]? = some item
  owned : item.owner = owner
  unfinished : Unfinished s id item

/-- The spawner of a task has returned, and no ledger lists the task. -/
structure Idle (s : State) (id : Nat) : Prop where
  returned : ∃ item, s.items[id]? = some item ∧ item.spawner = .returned
  unlisted : ∀ owner, (owner, id) ∉ s.ledger

/-- `own` says that `cancel_all` is called with ledgers only. -/
structure Sound (p : Policy) (own : Prop) (s : State) (log : List (Nat × TaskOutcome)) : Prop where
  ids : ∀ (i : Nat) (item : Item), s.items[i]? = some item → item.id = i
  books : held s log = Multiset.range s.items.length
  fresh : ∀ item : Item, item ∈ s.items → item.spawner = .inserting →
    p.owned = false ∧ item.id ∉ s.entries ∧ item.wrapper = .waiting ∧ item.aborted = false
  present : ∀ item : Item, item ∈ s.items → item.id ∈ s.entries →
    item.wrapper.present = true ∧ item.aborted = false
  pushing : ∀ item : Item, item ∈ s.items → item.spawner = .pushing →
    p.owned = true ∧ Unfinished s item.id item
  ledger : ∀ owner id, (owner, id) ∈ s.ledger → p.owned = true ∧ ∃ item, Listed s owner id item
  called : own → p.owned = true → ∀ d ∈ s.drains, ∀ ids, d.pc = .called ids → ∀ id ∈ ids, Idle s id
  taken : ∀ d ∈ s.drains, ∀ id ∈ d.taken,
    id ∉ s.entries ∧ ∃ item, s.items[id]? = some item ∧ item.spawner ≠ .inserting
  idle : own → p.owned = true → ∀ d ∈ s.drains, ∀ id ∈ d.taken, Idle s id
  rest : ∀ d ∈ s.drains, ∀ id ∈ d.taken, id ∈ d.held ∨ id ∈ recorded log
  flags : ∀ d ∈ s.drains, ∀ left, d.pc = .cancelling left ∨ d.pc = .aborting left → left ⊆ d.taken
  unopened : ∀ d ∈ s.drains, ∀ ids, d.pc = .called ids → d.joins = []
  returned : ∀ d ∈ s.drains, d.pc = .returned → d.joins = []
  handles : ∀ d ∈ s.drains, d.joins ⊆ d.taken

theorem sound_initial (p : Policy) (own : Prop) : Sound p own {} [] where
  ids _ _ h := by cases h
  books := rfl
  fresh _ h := by cases h
  present _ h := by cases h
  pushing _ h := by cases h
  ledger _ _ h := by cases h
  called _ _ _ h := by cases h
  taken _ h := by cases h
  idle _ _ _ h := by cases h
  rest _ h := by cases h
  flags _ h := by cases h
  unopened _ h := by cases h
  returned _ h := by cases h
  handles _ h := by cases h

theorem Sound.id_eq (hs : Sound p own s log) (hi : s.items[i]? = some item) : item.id = i :=
  hs.ids i item hi

theorem Sound.nodup (hs : Sound p own s log) : s.entries.Nodup := by
  have hle : (s.entries : Multiset Nat) ≤ held s log := by
    unfold held
    exact ((Multiset.le_add_left _ _).trans (Multiset.le_add_right _ _)).trans
      (Multiset.le_add_right _ _)
  rw [hs.books] at hle
  exact Multiset.nodup_of_le hle (Multiset.nodup_range _)

/-! ## Moving one item -/

/-- What a spawner or a wrapper may do with its item, the table, the ledger and the record. -/
structure Local (p : Policy) (s t : State) (log log' : List (Nat × TaskOutcome)) (i : Nat)
    (item item' : Item) : Prop where
  items : t.items = s.items.set i item'
  drains : t.drains = s.drains
  id : item'.id = item.id
  owner : item'.owner = item.owner
  books : item'.held + t.entries + recorded log' = item.held + s.entries + recorded log
  record : log ⊆ log'
  entries : ∀ j, j ≠ i → (j ∈ t.entries ↔ j ∈ s.entries)
  inserted : i ∈ t.entries → i ∈ s.entries ∨ item.spawner = .inserting
  ledger : ∀ owner j, (owner, j) ∈ t.ledger →
    (owner, j) ∈ s.ledger ∨ j = i ∧ owner = item.owner ∧ item.spawner = .pushing
  fresh : item'.spawner = .inserting →
    p.owned = false ∧ i ∉ t.entries ∧ item'.wrapper = .waiting ∧ item'.aborted = false
  present : i ∈ t.entries → item'.wrapper.present = true ∧ item'.aborted = false
  pushing : item'.spawner = .pushing → item.spawner = .pushing
  placed : item.spawner ≠ .inserting → item'.spawner ≠ .inserting
  returned : item.spawner = .returned → item'.spawner = .returned
  unfinished : p.owned = true → item'.spawner = .pushing ∨ (∃ owner, (owner, i) ∈ t.ledger) →
    Unfinished s i item → Unfinished t i item'

theorem held_moved (hi : s.items[i]? = some item) (hitems : t.items = s.items.set i item')
    (hdrains : t.drains = s.drains)
    (h : item'.held + t.entries + recorded log' = item.held + s.entries + recorded log) :
    held t log' = held s log := by
  have hsum := sum_set (f := Item.held) (b := item') hi
  unfold held
  rw [hitems, hdrains]
  generalize (s.drains.map Drain.held).sum = drains
  refine add_right_cancel (b := item.held) ?_
  calc ((s.items.set i item').map Item.held).sum + t.entries + drains + recorded log' + item.held
      = (((s.items.set i item').map Item.held).sum + item.held) + t.entries + recorded log' +
          drains := by abel
    _ = (s.items.map Item.held).sum + (item'.held + t.entries + recorded log') + drains := by
        rw [hsum]
        abel
    _ = (s.items.map Item.held).sum + s.entries + drains + recorded log + item.held := by
        rw [h]
        abel

theorem Unfinished.apart {other : Item} (hl : Local p s t log log' i item item') {j : Nat} (hj : j ≠ i)
    (h : Unfinished s j other) : Unfinished t j other := by
  unfold Unfinished
  rw [hl.entries j hj, hl.drains]
  exact h

theorem Idle.moved (hi : s.items[i]? = some item) (hl : Local p s t log log' i item item') {j : Nat}
    (h : Idle s j) : Idle t j := by
  obtain ⟨⟨other, hfound, hreturned⟩, hunlisted⟩ := h
  refine ⟨?_, fun owner hlisted => ?_⟩
  · rw [hl.items]
    by_cases hj : j = i
    · subst hj
      obtain rfl := Option.some.inj (hi.symm.trans hfound)
      exact ⟨item', (get_set hi).mpr (.inl ⟨rfl, rfl⟩), hl.returned hreturned⟩
    · exact ⟨other, (get_set hi).mpr (.inr ⟨hj, hfound⟩), hreturned⟩
  · rcases hl.ledger owner j hlisted with hold | ⟨rfl, -, hpushing⟩
    · exact hunlisted owner hold
    · obtain rfl := Option.some.inj (hi.symm.trans hfound)
      rw [hreturned] at hpushing
      cases hpushing

theorem Sound.unfinished (hs : Sound p own s log) (hi : s.items[i]? = some item)
    (h : item.spawner = .pushing ∨ ∃ owner, (owner, i) ∈ s.ledger) :
    p.owned = true ∧ Unfinished s i item := by
  rcases h with hpushing | ⟨owner, hlisted⟩
  · have h := hs.pushing item (List.mem_of_getElem? hi) hpushing
    rw [hs.id_eq hi] at h
    exact h
  · obtain ⟨howned, other, hother⟩ := hs.ledger owner i hlisted
    obtain rfl := Option.some.inj (hi.symm.trans hother.found)
    exact ⟨howned, hother.unfinished⟩

theorem Sound.moved (hs : Sound p own s log) (hi : s.items[i]? = some item)
    (hl : Local p s t log log' i item item') : Sound p own t log' := by
  have hget : ∀ j other, t.items[j]? = some other ↔
      j = i ∧ other = item' ∨ j ≠ i ∧ s.items[j]? = some other := by
    intro j other
    rw [hl.items]
    exact get_set hi
  have hmem : ∀ other ∈ t.items, other = item' ∨ ∃ j, j ≠ i ∧ s.items[j]? = some other := by
    intro other hother
    rw [hl.items] at hother
    exact (mem_set hi).mp hother
  have hid : item'.id = i := hl.id.trans (hs.id_eq hi)
  have hother : ∀ {j other}, j ≠ i → s.items[j]? = some other → other.id ≠ i :=
    fun hj h heq => hj ((hs.id_eq h).symm.trans heq)
  -- whatever becomes of the item, it is unfinished while it has to be
  have hkept : item'.spawner = .pushing ∨ (∃ owner, (owner, i) ∈ t.ledger) →
      p.owned = true ∧ Unfinished t i item' := by
    intro h
    have hold : item.spawner = .pushing ∨ ∃ owner, (owner, i) ∈ s.ledger := by
      rcases h with hpushing | ⟨owner, hlisted⟩
      · exact .inl (hl.pushing hpushing)
      · rcases hl.ledger owner i hlisted with hold | ⟨-, -, hpushing⟩
        · exact .inr ⟨owner, hold⟩
        · exact .inl hpushing
    obtain ⟨howned, hunfinished⟩ := hs.unfinished hi hold
    exact ⟨howned, hl.unfinished howned h hunfinished⟩
  refine ⟨?_, ?_, ?_, ?_, ?_, ?_, ?_, ?_, ?_, ?_, ?_, ?_, ?_, ?_⟩
  · intro j other h
    rcases (hget j other).mp h with ⟨rfl, rfl⟩ | ⟨-, h⟩
    · exact hid
    · exact hs.ids j other h
  · rw [hl.items, List.length_set, ← hs.books]
    exact held_moved hi hl.items hl.drains hl.books
  · intro other ho hinserting
    rcases hmem other ho with rfl | ⟨j, hj, h⟩
    · rw [hid]
      exact hl.fresh hinserting
    · rw [hl.entries _ (hother hj h)]
      exact hs.fresh other (List.mem_of_getElem? h) hinserting
  · intro other ho hentry
    rcases hmem other ho with rfl | ⟨j, hj, h⟩
    · rw [hid] at hentry
      exact hl.present hentry
    · rw [hl.entries _ (hother hj h)] at hentry
      exact hs.present other (List.mem_of_getElem? h) hentry
  · intro other ho hpushing
    rcases hmem other ho with rfl | ⟨j, hj, h⟩
    · rw [hid]
      exact hkept (.inl hpushing)
    · obtain ⟨howned, hunfinished⟩ := hs.pushing other (List.mem_of_getElem? h) hpushing
      exact ⟨howned, hunfinished.apart hl (hother hj h)⟩
  · intro owner j hlisted
    by_cases hj : j = i
    · subst hj
      obtain ⟨howned, hunfinished⟩ := hkept (.inr ⟨owner, hlisted⟩)
      have howner : owner = item.owner := by
        rcases hl.ledger owner j hlisted with hold | ⟨-, howner, -⟩
        · obtain ⟨-, other, hother⟩ := hs.ledger owner j hold
          obtain rfl := Option.some.inj (hi.symm.trans hother.found)
          exact hother.owned.symm
        · exact howner
      exact ⟨howned, item', (hget j item').mpr (.inl ⟨rfl, rfl⟩), hl.owner.trans howner.symm,
        hunfinished⟩
    · rcases hl.ledger owner j hlisted with hold | ⟨heq, -⟩
      · obtain ⟨howned, other, hfound, howner, hunfinished⟩ := hs.ledger owner j hold
        exact ⟨howned, other, (hget j other).mpr (.inr ⟨hj, hfound⟩), howner, hunfinished.apart hl hj⟩
      · exact absurd heq hj
  · intro hown howned d hd ids hpc j hj
    rw [hl.drains] at hd
    exact (hs.called hown howned d hd ids hpc j hj).moved hi hl
  · intro d hd j hj
    rw [hl.drains] at hd
    obtain ⟨hgone, other, hfound, hplaced⟩ := hs.taken d hd j hj
    by_cases heq : j = i
    · subst heq
      obtain rfl := Option.some.inj (hi.symm.trans hfound)
      refine ⟨fun hentry => ?_, item', (hget j item').mpr (.inl ⟨rfl, rfl⟩), hl.placed hplaced⟩
      rcases hl.inserted hentry with hold | hinserting
      · exact hgone hold
      · exact hplaced hinserting
    · rw [hl.entries j heq]
      exact ⟨hgone, other, (hget j other).mpr (.inr ⟨heq, hfound⟩), hplaced⟩
  · intro hown howned d hd j hj
    rw [hl.drains] at hd
    exact (hs.idle hown howned d hd j hj).moved hi hl
  · intro d hd j hj
    rw [hl.drains] at hd
    rcases hs.rest d hd j hj with hheld | hrecorded
    · exact .inl hheld
    · exact .inr (List.map_subset _ hl.record hrecorded)
  · rw [hl.drains]
    exact hs.flags
  · rw [hl.drains]
    exact hs.unopened
  · rw [hl.drains]
    exact hs.returned
  · rw [hl.drains]
    exact hs.handles

/-! ## The steps of a wrapper -/

theorem held_wrapper (item : Item) (w : Wrapper) :
    ({ item with wrapper := w } : Item).held + (if item.wrapper.reaping?.isSome then {item.id} else 0) =
      item.held + if w.reaping?.isSome then {item.id} else 0 := by
  unfold Item.held
  abel

theorem Sound.wrapped (hs : Sound p own s log) (hi : s.items[i]? = some item) {w : Wrapper}
    (hitems : t.items = s.items.set i { item with wrapper := w }) (hdrains : t.drains = s.drains)
    (hwaiting : item.wrapper = .waiting → item.started = true ∨ item.aborted = true)
    (hbooks : (if w.reaping?.isSome then {item.id} else 0 : Multiset Nat) + t.entries + recorded log' =
      (if item.wrapper.reaping?.isSome then {item.id} else 0 : Multiset Nat) + s.entries + recorded log)
    (hrecord : log ⊆ log') (hentries : ∀ j, j ≠ i → (j ∈ t.entries ↔ j ∈ s.entries))
    (hsub : i ∈ t.entries → i ∈ s.entries) (hledger : ∀ x ∈ t.ledger, x ∈ s.ledger)
    (hpresent : i ∈ t.entries → w.present = true)
    (hunfinished : p.owned = true → item.spawner = .pushing ∨ (∃ owner, (owner, i) ∈ t.ledger) →
      Unfinished s i item → Unfinished t i { item with wrapper := w }) :
    Sound p own t log' := by
  have hmem := List.mem_of_getElem? hi
  have hid := hs.id_eq hi
  have hfresh : item.spawner ≠ .inserting := by
    intro hinserting
    obtain ⟨-, -, hw, hlive⟩ := hs.fresh item hmem hinserting
    rcases hwaiting hw with hstarted | haborted
    · rw [Item.started, hinserting] at hstarted
      cases hstarted
    · rw [hlive] at haborted
      cases haborted
  refine hs.moved hi ⟨hitems, hdrains, rfl, rfl, ?_, hrecord, hentries, fun h => .inl (hsub h),
    fun owner j h => .inl (hledger _ h), fun h => absurd h hfresh, fun h => ⟨hpresent h, ?_⟩,
    fun h => h, fun h => h, fun h => h, hunfinished⟩
  · have hheld := held_wrapper item w
    refine add_right_cancel
      (b := if item.wrapper.reaping?.isSome then ({item.id} : Multiset Nat) else 0) ?_
    calc _ = (({ item with wrapper := w } : Item).held +
          if item.wrapper.reaping?.isSome then {item.id} else 0) + t.entries + recorded log' := by abel
      _ = item.held + ((if w.reaping?.isSome then {item.id} else 0) + t.entries + recorded log') := by
          rw [hheld]
          abel
      _ = _ := by
          rw [hbooks]
          abel
  · exact (hs.present item hmem (hid ▸ hsub h)).2

theorem Sound.walked (hs : Sound p own s log) (hi : s.items[i]? = some item) {w : Wrapper}
    {counters : Counters}
    (hwaiting : item.wrapper = .waiting → item.started = true ∨ item.aborted = true)
    (hreaping : w.reaping?.isSome = item.wrapper.reaping?.isSome)
    (hpresent : i ∈ s.entries → w.present = true)
    (hrecording : item.wrapper.recording = true → p.owned = true → w.recording = true) :
    Sound p own ({ s with counters := counters }.setItem i { item with wrapper := w }) log :=
  hs.wrapped hi rfl rfl hwaiting (by rw [hreaping]; rfl) (fun _ h => h) (fun _ _ => Iff.rfl)
    (fun h => h) (fun _ h => h) hpresent fun howned _ h =>
      h.imp_right (.imp_left fun hrec => hrecording hrec howned)

theorem holding_locked (howned : p.owned = true) (hitem : item ∈ s.items) (h : item.holding = true) :
    s.locked p item.owner = true := by
  rw [State.locked, howned, Bool.true_and, List.any_eq_true]
  exact ⟨item, hitem, by rw [beq_self_eq_true, h, Bool.true_and]⟩

theorem Sound.aborted_gone (hs : Sound p own s log) (hi : s.items[i]? = some item)
    (haborted : item.aborted = true) : i ∉ s.entries := by
  intro hentry
  rw [← hs.id_eq hi] at hentry
  rw [(hs.present item (List.mem_of_getElem? hi) hentry).2] at haborted
  cases haborted

theorem Sound.present_gone (hs : Sound p own s log) (hi : s.items[i]? = some item)
    (hgone : item.wrapper.present = false) : i ∉ s.entries := by
  intro hentry
  rw [← hs.id_eq hi] at hentry
  rw [(hs.present item (List.mem_of_getElem? hi) hentry).1] at hgone
  cases hgone

theorem Sound.removed (hs : Sound p own s log) (hi : s.items[i]? = some item) {outcome : TaskOutcome}
    (hw : item.wrapper = .completing outcome) (hentry : i ∈ s.entries) :
    Sound p own ({ s with entries := s.entries.erase i }.setItem i
      { item with wrapper := .reaping outcome }) log := by
  have hgone : i ∉ s.entries.erase i := fun h => (hs.nodup.mem_erase_iff.mp h).1 rfl
  refine hs.wrapped hi rfl rfl ?_ ?_ (fun _ h => h) (fun j hj => List.mem_erase_of_ne hj)
    (fun h => absurd h hgone) (fun _ h => h) (fun h => absurd h hgone) fun _ _ _ => .inr (.inl rfl)
  · rw [hw]
    exact nofun
  · have herase : ({i} : Multiset Nat) + (s.entries.erase i : List Nat) = s.entries := by
      rw [Multiset.singleton_add, Multiset.cons_coe, Multiset.coe_eq_coe]
      exact (List.perm_cons_erase hentry).symm
    rw [hw, hs.id_eq hi]
    simp only [Wrapper.reaping?, Option.isSome_some, if_true, Option.isSome_none, Bool.false_eq_true,
      if_false, zero_add]
    rw [← herase]
    rfl

theorem Sound.reaped (hs : Sound p own s log) (hi : s.items[i]? = some item) {outcome : TaskOutcome}
    (hw : item.wrapper = .reaping outcome) (counters : Counters) :
    Sound p own ({ s with counters := counters }.setItem i { item with wrapper := .counting outcome })
      (log ++ [(i, outcome)]) := by
  have hgone := hs.present_gone hi (by rw [hw]; rfl)
  refine hs.wrapped hi rfl rfl ?_ ?_ (List.subset_append_left _ _) (fun _ _ => Iff.rfl)
    (fun h => h) (fun _ h => h) (fun h => absurd h hgone) fun _ _ _ => .inr (.inl rfl)
  · rw [hw]
    exact nofun
  · rw [hw, hs.id_eq hi]
    simp only [Wrapper.reaping?, Option.isSome_some, if_true, Option.isSome_none, Bool.false_eq_true,
      if_false, zero_add, recorded, List.map_append, List.map_singleton, ← Multiset.coe_add,
      Multiset.coe_singleton]
    change (s.entries : Multiset Nat) + (_ + _) = _
    abel

theorem Sound.detached (hs : Sound p own s log) (hi : s.items[i]? = some item) {outcome : TaskOutcome}
    (hw : item.wrapper = .detaching outcome) (hfree : s.locked p item.owner = false) :
    Sound p own ((s.detach item.owner i).setItem i { item with wrapper := .leaving outcome }) log := by
  have hgone := hs.present_gone hi (by rw [hw]; rfl)
  refine hs.wrapped hi rfl rfl ?_ ?_ (fun _ h => h) (fun _ _ => Iff.rfl) (fun h => h)
    (fun _ h => (List.mem_filter.mp h).1) (fun h => absurd h hgone) fun howned h => ?_
  · rw [hw]
    exact nofun
  · rw [hw]
    rfl
  · rcases h with hpushing | ⟨owner, hlisted⟩
    · refine absurd (holding_locked howned (List.mem_of_getElem? hi) ?_) (ne_true_of_eq_false hfree)
      rw [Item.holding, hpushing]
      rfl
    · obtain ⟨hold, hkept⟩ := List.mem_filter.mp hlisted
      obtain ⟨-, other, hother⟩ := hs.ledger owner i hold
      obtain rfl := Option.some.inj (hi.symm.trans hother.found)
      exact absurd (by rw [hother.owned]) (of_decide_eq_true hkept)

theorem sound_go (hs : Sound p own s log) (hi : s.items[i]? = some item)
    (hquiet : item.wrapper.reaping? = none) {q : State × Wrapper}
    (h : stepWrapper p s item .go = some q) :
    Sound p own (q.1.setItem i { item with wrapper := q.2 }) log := by
  have hid := hs.id_eq hi
  simp only [stepWrapper] at h
  cases hw : item.wrapper with
  | waiting =>
    rw [hw] at h
    obtain ⟨hstarted, heq⟩ := Option.ite_none_right_eq_some.mp h
    cases heq
    refine hs.walked hi (fun _ => .inl hstarted) ?_ (fun _ => ?_) ?_
    · rw [hw]
      split <;> rfl
    · split <;> rfl
    · rw [hw]
      exact nofun
  | activating =>
    rw [hw] at h
    cases h
    refine hs.walked hi ?_ (by rw [hw]; rfl) (fun _ => rfl) ?_ <;> rw [hw] <;> exact nofun
  | completing outcome =>
    simp only [hw, hid] at h
    by_cases hentry : i ∈ s.entries
    · rw [if_pos hentry] at h
      cases h
      exact hs.removed hi hw hentry
    · rw [if_neg hentry] at h
      cases h
      refine hs.walked hi ?_ (by rw [hw]; rfl) (fun h => absurd h hentry) ?_ <;> rw [hw] <;>
        exact nofun
  | counting outcome =>
    rw [hw] at h
    cases h
    have hgone := hs.present_gone hi (by rw [hw]; rfl)
    refine hs.walked hi ?_ ?_ (fun h => absurd h hgone) fun _ howned => ?_
    · rw [hw]
      exact nofun
    · rw [hw]
      split <;> rfl
    · rw [if_pos howned]
      rfl
  | detaching outcome =>
    rw [hw, hid] at h
    obtain ⟨hfree, heq⟩ := Option.ite_none_left_eq_some.mp h
    cases heq
    exact hs.detached hi hw (Bool.eq_false_of_not_eq_true hfree)
  | leaving outcome =>
    rw [hw] at h
    cases h
    have hgone := hs.present_gone hi (by rw [hw]; rfl)
    refine hs.walked hi ?_ (by rw [hw]; rfl) (fun h => absurd h hgone) ?_ <;> rw [hw] <;> exact nofun
  | reaping outcome =>
    rw [hw] at hquiet
    cases hquiet
  | running | ended =>
    rw [hw] at h
    cases h

/-- A wrapper that is dropped was aborted, and a drain has its entry. -/
theorem Sound.dropped (hs : Sound p own s log) (hi : s.items[i]? = some item)
    (haborted : item.aborted = true) (hw : item.wrapper.present = true) (joined : Joined) :
    Sound p own (s.setItem i { item with wrapper := .ended joined }) log := by
  have hgone := hs.aborted_gone hi haborted
  cases hwrapper : item.wrapper with
  | waiting | activating | running | completing =>
    refine hs.walked hi (fun _ => .inr haborted) (by rw [hwrapper]; rfl) (fun h => absurd h hgone) ?_
    rw [hwrapper]
    exact nofun
  | reaping | counting | detaching | leaving | ended =>
    rw [hwrapper] at hw
    cases hw

theorem sound_move (hs : Sound p own s log) (hi : s.items[i]? = some item) {move : Move}
    (hmove : move ≠ .go) {q : State × Wrapper} (h : stepWrapper p s item move = some q) :
    Sound p own (q.1.setItem i { item with wrapper := q.2 }) log := by
  cases move with
  | go => exact absurd rfl hmove
  | refuse =>
    simp only [stepWrapper] at h
    split at h <;> cases h
    rename_i hw
    refine hs.walked hi ?_ (by rw [hw]; rfl) (fun _ => rfl) ?_ <;> rw [hw] <;> exact nofun
  | yield outcome =>
    simp only [stepWrapper] at h
    split at h
    · rename_i hw
      obtain ⟨-, heq⟩ := Option.ite_none_right_eq_some.mp h
      cases heq
      refine hs.walked hi ?_ (by rw [hw]; rfl) (fun _ => rfl) ?_ <;> rw [hw] <;> exact nofun
    · cases h
  | abort =>
    simp only [stepWrapper] at h
    cases hw : item.wrapper with
    | waiting | activating | running =>
      rw [hw] at h
      obtain ⟨haborted, heq⟩ := Option.ite_none_right_eq_some.mp h
      cases heq
      exact hs.dropped hi haborted (by rw [hw]; rfl) .cancelled
    | completing | reaping | counting | detaching | leaving | ended =>
      rw [hw] at h
      cases h
  | panic =>
    simp only [stepWrapper] at h
    cases hw : item.wrapper with
    | waiting | activating | running =>
      rw [hw] at h
      obtain ⟨haborted, heq⟩ := Option.ite_none_right_eq_some.mp h
      cases heq
      exact hs.dropped hi haborted (by rw [hw]; rfl) .panicked
    | leaving outcome =>
      rw [hw] at h
      cases h
      have hgone := hs.present_gone hi (by rw [hw]; rfl)
      refine hs.walked hi ?_ (by rw [hw]; rfl) (fun h => absurd h hgone) ?_ <;> rw [hw] <;>
        exact nofun
    | completing | reaping | counting | detaching | ended =>
      rw [hw] at h
      cases h

/-- One operation of a wrapper; the outcome is in the record once `reaped` is incremented. -/
theorem sound_wrapper (hs : Sound p own s log) (hi : s.items[i]? = some item) {move : Move}
    {q : State × Wrapper} (h : stepWrapper p s item move = some q) :
    Sound p own (q.1.setItem i { item with wrapper := q.2 }) (log ++ records s (.wrapper i move) t) := by
  by_cases hmove : move = .go
  · subst hmove
    rw [records, hi, Option.bind_some]
    cases hreaping : item.wrapper.reaping? with
    | none =>
      rw [Option.map_none, Option.toList_none, List.append_nil]
      exact sound_go hs hi hreaping h
    | some outcome =>
      cases hw : item.wrapper <;> rw [hw] at hreaping <;> cases hreaping
      simp only [stepWrapper, hw] at h
      cases h
      exact hs.reaped hi hw _
  · have hnone : records s (.wrapper i move) t = [] := by
      cases move with
      | go => exact absurd rfl hmove
      | refuse | yield | abort | panic => rfl
    rw [hnone, List.append_nil]
    exact sound_move hs hi hmove h

/-! ## The steps of a spawner -/

theorem Sound.progressed (hs : Sound p own s log) (hi : s.items[i]? = some item) {spawner : Spawner}
    (hold : item.spawner ≠ .inserting) (hnew : spawner ≠ .inserting ∧ spawner ≠ .pushing)
    (hreturned : item.spawner = .returned → spawner = .returned) :
    Sound p own (s.setItem i { item with spawner := spawner }) log := by
  have hmem := List.mem_of_getElem? hi
  have hid := hs.id_eq hi
  refine hs.moved hi ⟨rfl, rfl, rfl, rfl, ?_, fun _ h => h, fun _ _ => Iff.rfl, .inl, fun _ _ => .inl,
    fun h => absurd h hnew.1, fun h => ?_, fun h => absurd h hnew.2, fun _ => hnew.1, hreturned,
    fun _ _ h => h⟩
  · unfold Item.held
    rw [if_neg hnew.1, if_neg hold]
    rfl
  · exact hs.present item hmem (hid ▸ h)

theorem Sound.inserted (hs : Sound p own s log) (hi : s.items[i]? = some item)
    (hinserting : item.spawner = .inserting) :
    Sound p own { s.setItem i { item with spawner := .starting } with entries := s.entries ++ [i] }
      log := by
  have hid := hs.id_eq hi
  obtain ⟨hworker, -, hwaiting, hlive⟩ := hs.fresh item (List.mem_of_getElem? hi) hinserting
  refine hs.moved hi ⟨rfl, rfl, rfl, rfl, ?_, fun _ h => h, fun j hj => ?_, fun _ => .inr hinserting,
    fun _ _ => .inl, nofun, fun _ => ⟨?_, hlive⟩, nofun, fun _ => nofun, ?_, fun howned => ?_⟩
  · unfold Item.held
    rw [if_pos hinserting, hid, ← Multiset.coe_add, Multiset.coe_singleton]
    simp only [reduceCtorEq, if_false, zero_add]
    abel
  · simp [hj]
  · change item.wrapper.present = true
    rw [hwaiting]
    rfl
  · rw [hinserting]
    exact nofun
  · rw [hworker] at howned
    cases howned

theorem Sound.pushed (hs : Sound p own s log) (hi : s.items[i]? = some item)
    (hpushing : item.spawner = .pushing) :
    Sound p own { s.setItem i { item with spawner := .starting } with
      ledger := s.ledger ++ [(item.owner, i)] } log := by
  have hid := hs.id_eq hi
  have hmem := List.mem_of_getElem? hi
  refine hs.moved hi ⟨rfl, rfl, rfl, rfl, ?_, fun _ h => h, fun _ _ => Iff.rfl, .inl,
    fun owner j h => ?_, nofun, fun h => ?_, nofun, fun _ => nofun, ?_, fun _ _ h => h⟩
  · unfold Item.held
    rw [hpushing]
    rfl
  · rcases List.mem_append.mp h with hold | hnew
    · exact .inl hold
    · cases List.mem_singleton.mp hnew
      exact .inr ⟨rfl, rfl, hpushing⟩
  · exact hs.present item hmem (hid ▸ h)
  · rw [hpushing]
    exact nofun

theorem sound_spawner (hs : Sound p own s log) (hi : s.items[i]? = some item)
    (h : stepSpawner s item = some t) : Sound p own t log := by
  obtain rfl := hs.id_eq hi
  unfold stepSpawner at h
  cases hspawner : item.spawner with
  | inserting =>
    rw [hspawner] at h
    cases h
    exact hs.inserted hi hspawner
  | pushing =>
    rw [hspawner] at h
    cases h
    exact hs.pushed hi hspawner
  | starting =>
    rw [hspawner] at h
    cases h
    refine hs.progressed hi ?_ ⟨nofun, nofun⟩ ?_ <;> rw [hspawner] <;> exact nofun
  | releasing =>
    rw [hspawner] at h
    cases h
    refine hs.progressed hi ?_ ⟨nofun, nofun⟩ fun _ => rfl
    rw [hspawner]
    exact nofun
  | returned =>
    rw [hspawner] at h
    cases h

end Cordis.Supervision
