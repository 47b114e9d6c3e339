import Cordis.Proof.Supervision

/-!
# The steps of a drain

A drain takes entries out of the table in one step, joins their handles in any order and records what each
handle yields. `Turn` says what one of its operations may do.
-/

namespace Cordis.Supervision

open Machine Threads

variable {p : Policy} {own : Prop} {s t : State} {log log' : List (Nat × TaskOutcome)}
  {item item' : Item} {d d' : Drain} {i n : Nat}

/-- What a drain may do with the table, the ledger and the record. -/
structure Turn (p : Policy) (own : Prop) (s t : State) (log log' : List (Nat × TaskOutcome)) (n : Nat)
    (d d' : Drain) : Prop where
  items : t.items = s.items
  drains : t.drains = s.drains.set n d'
  books : d'.held + t.entries + recorded log' = d.held + s.entries + recorded log
  record : log ⊆ log'
  entries : t.entries ⊆ s.entries
  gone : ∀ j ∈ s.entries, j ∈ t.entries ∨ j ∈ d'.joins
  ledger : t.ledger ⊆ s.ledger
  has : p.owned = true → ∀ j, d.has j → d'.has j ∨ (∀ owner, (owner, j) ∉ t.ledger) ∧
    ∀ item : Item, s.items[j]? = some item → item.spawner ≠ .pushing
  called : ∀ ids, d'.pc ≠ .called ids
  taken : ∀ j ∈ d'.taken, j ∈ d.taken ∨
    j ∈ s.entries ∧ j ∉ t.entries ∧ (own → p.owned = true → Idle s j)
  rest : ∀ j ∈ d'.taken, j ∈ d'.held ∨ j ∈ recorded log'
  flags : ∀ left, d'.pc = .cancelling left ∨ d'.pc = .aborting left → left ⊆ d'.taken
  returned : d'.pc = .returned → d'.joins = []
  handles : d'.joins ⊆ d'.taken

theorem held_turned (hd : s.drains[n]? = some d) (hitems : t.items = s.items)
    (hdrains : t.drains = s.drains.set n d')
    (h : d'.held + t.entries + recorded log' = d.held + s.entries + recorded log) :
    held t log' = held s log := by
  have hsum := sum_set (f := Drain.held) (b := d') hd
  unfold held
  rw [hitems, hdrains]
  generalize (s.items.map Item.held).sum = items
  refine add_right_cancel (b := d.held) ?_
  calc items + t.entries + ((s.drains.set n d').map Drain.held).sum + recorded log' + d.held
      = items + t.entries + (((s.drains.set n d').map Drain.held).sum + d.held) + recorded log' := by
        abel
    _ = items + (s.drains.map Drain.held).sum + (d'.held + t.entries + recorded log') := by
        rw [hsum]
        abel
    _ = items + s.entries + (s.drains.map Drain.held).sum + recorded log + d.held := by
        rw [h]
        abel

theorem Sound.entry_found (hs : Sound p own s log) (h : i ∈ s.entries) :
    ∃ item, s.items[i]? = some item ∧ item.spawner ≠ .inserting := by
  have hbooks : i ∈ held s log := by
    unfold held
    simp only [Multiset.mem_add, Multiset.mem_coe]
    exact .inl (.inl (.inr h))
  rw [hs.books, Multiset.mem_range] at hbooks
  have hi := List.getElem?_eq_getElem hbooks
  refine ⟨_, hi, fun hinserting => ?_⟩
  have hfresh := (hs.fresh _ (List.mem_of_getElem? hi) hinserting).2.1
  rw [hs.id_eq hi] at hfresh
  exact hfresh h

theorem Idle.mono {j : Nat} (h : Idle s j) (hitems : t.items = s.items) (hledger : t.ledger ⊆ s.ledger) :
    Idle t j :=
  ⟨hitems ▸ h.returned, fun owner hlisted => h.unlisted owner (hledger hlisted)⟩

theorem Unfinished.turned (hd : s.drains[n]? = some d) (ht : Turn p own s t log log' n d d')
    (howned : p.owned = true) (hi : s.items[i]? = some item)
    (hlive : item.spawner = .pushing ∨ ∃ owner, (owner, i) ∈ t.ledger) (h : Unfinished s i item) :
    Unfinished t i item := by
  have hset : ∀ e, e ∈ t.drains ↔ e = d' ∨ ∃ m, m ≠ n ∧ s.drains[m]? = some e := by
    intro e
    rw [ht.drains]
    exact mem_set hd
  rcases h with hentry | hrecording | ⟨e, he, hhas⟩
  · rcases ht.gone i hentry with hkept | hjoins
    · exact .inl hkept
    · exact .inr (.inr ⟨d', (hset d').mpr (.inl rfl), .inl hjoins⟩)
  · exact .inr (.inl hrecording)
  · obtain ⟨m, hm⟩ := List.mem_iff_getElem?.mp he
    by_cases hmn : m = n
    · subst hmn
      obtain rfl := Option.some.inj (hd.symm.trans hm)
      rcases ht.has howned i hhas with hkept | ⟨hunlisted, hnot⟩
      · exact .inr (.inr ⟨d', (hset d').mpr (.inl rfl), hkept⟩)
      · rcases hlive with hpushing | ⟨owner, hlisted⟩
        · exact absurd hpushing (hnot item hi)
        · exact absurd hlisted (hunlisted owner)
    · exact .inr (.inr ⟨e, (hset e).mpr (.inr ⟨m, hmn, hm⟩), hhas⟩)

theorem Sound.turned (hs : Sound p own s log) (hd : s.drains[n]? = some d)
    (ht : Turn p own s t log log' n d d') : Sound p own t log' := by
  have hmem : ∀ e ∈ t.drains, e = d' ∨ e ∈ s.drains := by
    intro e he
    rw [ht.drains] at he
    exact List.mem_or_eq_of_mem_set he |>.symm
  have hold := List.mem_of_getElem? hd
  refine ⟨?_, ?_, ?_, ?_, ?_, ?_, ?_, ?_, ?_, ?_, ?_, ?_, ?_, ?_⟩
  · rw [ht.items]
    exact hs.ids
  · rw [ht.items, ← hs.books]
    exact held_turned hd ht.items ht.drains ht.books
  · intro item hitem hinserting
    rw [ht.items] at hitem
    obtain ⟨hworker, hentry, hlive⟩ := hs.fresh item hitem hinserting
    exact ⟨hworker, fun h => hentry (ht.entries h), hlive⟩
  · intro item hitem hentry
    rw [ht.items] at hitem
    exact hs.present item hitem (ht.entries hentry)
  · intro item hitem hpushing
    rw [ht.items] at hitem
    obtain ⟨howned, hunfinished⟩ := hs.pushing item hitem hpushing
    obtain ⟨j, hj⟩ := List.mem_iff_getElem?.mp hitem
    rw [hs.id_eq hj] at hunfinished ⊢
    exact ⟨howned, hunfinished.turned hd ht howned hj (.inl hpushing)⟩
  · intro owner j hlisted
    obtain ⟨howned, item, hfound, howner, hunfinished⟩ := hs.ledger owner j (ht.ledger hlisted)
    exact ⟨howned, item, ht.items ▸ hfound, howner,
      hunfinished.turned hd ht howned hfound (.inr ⟨owner, hlisted⟩)⟩
  · intro hown howned e he ids hpc j hj
    rcases hmem e he with rfl | he
    · exact absurd hpc (ht.called ids)
    · exact (hs.called hown howned e he ids hpc j hj).mono ht.items ht.ledger
  · intro e he j hj
    have htaken : ∀ e ∈ s.drains, j ∈ e.taken →
        j ∉ t.entries ∧ ∃ item, t.items[j]? = some item ∧ item.spawner ≠ .inserting := by
      intro e he hj
      obtain ⟨hgone, hfound⟩ := hs.taken e he j hj
      exact ⟨fun h => hgone (ht.entries h), ht.items ▸ hfound⟩
    rcases hmem e he with rfl | he
    · rcases ht.taken j hj with hbefore | ⟨hentry, hgone, -⟩
      · exact htaken d hold hbefore
      · exact ⟨hgone, ht.items ▸ hs.entry_found hentry⟩
    · exact htaken e he hj
  · intro hown howned e he j hj
    rcases hmem e he with rfl | he
    · rcases ht.taken j hj with hbefore | ⟨-, -, hidle⟩
      · exact (hs.idle hown howned d hold j hbefore).mono ht.items ht.ledger
      · exact (hidle hown howned).mono ht.items ht.ledger
    · exact (hs.idle hown howned e he j hj).mono ht.items ht.ledger
  · intro e he j hj
    rcases hmem e he with rfl | he
    · exact ht.rest j hj
    · exact (hs.rest e he j hj).imp_right fun h => List.map_subset _ ht.record h
  · intro e he
    rcases hmem e he with rfl | he
    · exact ht.flags
    · exact hs.flags e he
  · intro e he ids hpc
    rcases hmem e he with rfl | he
    · exact absurd hpc (ht.called ids)
    · exact hs.unopened e he ids hpc
  · intro e he
    rcases hmem e he with rfl | he
    · exact ht.returned
    · exact hs.returned e he
  · intro e he
    rcases hmem e he with rfl | he
    · exact ht.handles
    · exact hs.handles e he

/-! ## Removal -/

theorem removeAll_perm (ids entries : List Nat) :
    ((removeAll ids entries).1 ++ (removeAll ids entries).2).Perm entries := by
  induction ids generalizing entries with
  | nil => exact .refl entries
  | cons id ids ih =>
    rw [removeAll]
    split
    · rename_i hentry
      exact ((ih (entries.erase id)).cons id).trans (List.perm_cons_erase hentry).symm
    · exact ih entries

theorem removeAll_subset (ids entries : List Nat) : (removeAll ids entries).1 ⊆ ids := by
  induction ids generalizing entries with
  | nil => exact List.Subset.refl []
  | cons id ids ih =>
    rw [removeAll]
    split
    · exact List.cons_subset_cons id (ih _)
    · exact List.subset_cons_of_subset id (ih entries)

theorem Sound.emptied (hs : Sound p own s log) (hd : s.drains[n]? = some d) {ids : List Nat}
    (hpc : d.pc = .called ids) :
    Sound p own { s.setDrain n { d with
        taken := (removeAll (s.requested p ids) s.entries).1
        joins := (removeAll (s.requested p ids) s.entries).1
        pc := .cancelling (removeAll (s.requested p ids) s.entries).1 }
      with entries := (removeAll (s.requested p ids) s.entries).2 } log := by
  have hnone := hs.unopened d (List.mem_of_getElem? hd) ids hpc
  have hperm := removeAll_perm (s.requested p ids) s.entries
  have hsub := removeAll_subset (s.requested p ids) s.entries
  generalize removeAll (s.requested p ids) s.entries = removed at hperm hsub ⊢
  obtain ⟨taken, left⟩ := removed
  have hmem : ∀ j, j ∈ s.entries ↔ j ∈ taken ∨ j ∈ left := by
    intro j
    rw [← hperm.mem_iff]
    exact List.mem_append
  have hdisjoint := List.disjoint_of_nodup_append (hperm.nodup_iff.mpr hs.nodup)
  have hentries : (s.entries : Multiset Nat) = taken + left := by
    rw [Multiset.coe_add, Multiset.coe_eq_coe]
    exact hperm.symm
  refine hs.turned hd ⟨rfl, rfl, ?_, fun _ h => h, fun j h => (hmem j).mpr (.inr h),
    fun j h => ((hmem j).mp h).symm, fun _ h => h, ?_, fun _ => nofun, ?_, fun j h => .inl ?_, ?_, nofun,
    fun _ h => h⟩
  · have hbefore : d.held = 0 := by
      rw [Drain.held, hnone, hpc]
      rfl
    rw [hbefore, hentries]
    simp only [Drain.held, DrainPc.held]
    abel
  · intro _ j hhas
    rw [Drain.has, hnone, hpc] at hhas
    rcases hhas with h | h <;> cases h
  · intro j hj
    refine .inr ⟨(hmem j).mpr (.inl hj), hdisjoint hj, fun hown howned => ?_⟩
    have hrequested := hsub hj
    rw [State.requested, if_pos howned] at hrequested
    exact hs.called hown howned d (List.mem_of_getElem? hd) ids hpc j hrequested
  · exact Multiset.mem_add.mpr (.inl h)
  · intro left' h
    rcases h with h | h <;> cases h
    exact List.Subset.refl _

/-! ## Joining and recording -/

theorem Sound.paced (hs : Sound p own s log) (hd : s.drains[n]? = some d) {counters : Counters}
    (htaken : d'.taken = d.taken) (hjoins : d'.joins = d.joins) (hheld : d'.pc.held = d.pc.held)
    (hsubject : d'.pc.subject? = d.pc.subject? ∨ p.owned = false) (hcalled : ∀ ids, d'.pc ≠ .called ids)
    (hflags : ∀ left, d'.pc = .cancelling left ∨ d'.pc = .aborting left → left ⊆ d'.taken)
    (hreturned : d'.pc = .returned → d'.joins = []) :
    Sound p own ({ s with counters := counters }.setDrain n d') log := by
  have hsame : d'.held = d.held := by rw [Drain.held, Drain.held, hjoins, hheld]
  refine hs.turned hd ⟨rfl, rfl, ?_, fun _ h => h, fun _ h => h, fun _ h => .inl h, fun _ h => h, ?_,
    hcalled, fun j h => .inl (htaken ▸ h), fun j h => ?_, hflags, hreturned, ?_⟩
  · rw [hsame]
    rfl
  · intro howned j hhas
    rcases hsubject with hsubject | hworker
    · rw [Drain.has, ← hjoins, ← hsubject] at hhas
      exact .inl hhas
    · rw [hworker] at howned
      cases howned
  · rw [htaken] at h
    rw [hsame]
    exact hs.rest d (List.mem_of_getElem? hd) j h
  · rw [htaken, hjoins]
    exact hs.handles d (List.mem_of_getElem? hd)

theorem Sound.joined (hs : Sound p own s log) (hd : s.drains[n]? = some d) (hpc : d.pc = .joining)
    {next : Nat} (hnext : next ∈ d.joins) (outcome : TaskOutcome) :
    Sound p own (s.setDrain n { d with joins := d.joins.erase next, pc := .reaping next outcome }) log := by
  have hsame : ({ d with joins := d.joins.erase next, pc := .reaping next outcome } : Drain).held =
      d.held := by
    have herase : (d.joins : Multiset Nat) = next ::ₘ (d.joins.erase next : List Nat) :=
      Multiset.coe_eq_coe.mpr (List.perm_cons_erase hnext)
    simp only [Drain.held, hpc, DrainPc.held, add_zero, herase]
    rw [add_comm, Multiset.singleton_add]
  refine hs.turned hd ⟨rfl, rfl, by rw [hsame]; rfl, fun _ h => h, fun _ h => h, fun _ h => .inl h,
    fun _ h => h, fun _ j hhas => .inl ?_, fun _ => nofun, fun j h => .inl h, fun j h => ?_, ?_, nofun,
    fun _ h => hs.handles d (List.mem_of_getElem? hd) (List.mem_of_mem_erase h)⟩
  · rcases hhas with hjoins | hsubject
    · by_cases hj : j = next
      · exact .inr (congrArg some hj.symm)
      · exact .inl ((List.mem_erase_of_ne hj).mpr hjoins)
    · rw [hpc] at hsubject
      cases hsubject
  · rw [hsame]
    exact hs.rest d (List.mem_of_getElem? hd) j h
  · intro left h
    rcases h with h | h <;> cases h

theorem Sound.counted (hs : Sound p own s log) (hd : s.drains[n]? = some d) {id : Nat}
    {outcome : TaskOutcome} (hpc : d.pc = .reaping id outcome) (counters : Counters) :
    Sound p own { s.setDrain n { d with pc := .counting id outcome } with counters := counters }
      (log ++ [(id, outcome)]) := by
  have hheld : d.held = d.joins + {id} := by
    rw [Drain.held, hpc]
    rfl
  have hrecord : (recorded (log ++ [(id, outcome)]) : Multiset Nat) = recorded log + {id} := by
    rw [recorded, List.map_append, ← Multiset.coe_add]
    rfl
  refine hs.turned hd ⟨rfl, rfl, ?_, List.subset_append_left _ _, fun _ h => h, fun _ h => .inl h,
    fun _ h => h, fun _ j hhas => .inl ?_, fun _ => (by simp), fun j h => .inl h, fun j h => ?_, ?_, by simp,
    hs.handles d (List.mem_of_getElem? hd)⟩
  · rw [hheld, hrecord]
    simp only [Drain.held, DrainPc.held, State.setDrain]
    abel
  · rwa [Drain.has, hpc] at hhas
  · rcases hs.rest d (List.mem_of_getElem? hd) j h with h | h
    · rw [hheld, Multiset.mem_add, Multiset.mem_singleton] at h
      rcases h with h | rfl
      · exact .inl (Multiset.mem_add.mpr (.inl h))
      · exact .inr (List.mem_map.mpr ⟨(j, outcome), List.mem_append_right _ List.mem_cons_self, rfl⟩)
    · exact .inr (List.map_subset _ (List.subset_append_left _ _) h)
  · intro left h
    rcases h with h | h <;> cases h

/-- `detach_task` by the drain; nobody holds the Fiber. -/
theorem Sound.unlisted (hs : Sound p own s log) (hd : s.drains[n]? = some d) {outcome : TaskOutcome}
    (hpc : d.pc = .detaching i outcome) (hi : s.items[i]? = some item)
    (hfree : s.locked p item.owner = false) :
    Sound p own ((s.detach item.owner i).setDrain n (d.recorded outcome)) log := by
  have hsame : (d.recorded outcome).held = d.held := by
    rw [Drain.held, Drain.held, hpc]
    rfl
  refine hs.turned hd ⟨rfl, rfl, by rw [hsame]; rfl, fun _ h => h, fun _ h => h, fun _ h => .inl h,
    fun _ h => (List.mem_filter.mp h).1, fun howned j hhas => ?_, fun _ => nofun, fun j h => .inl h,
    fun j h => ?_, ?_, nofun, hs.handles d (List.mem_of_getElem? hd)⟩
  · rcases hhas with hjoins | hsubject
    · exact .inl (.inl hjoins)
    · rw [hpc] at hsubject
      obtain rfl := Option.some.inj hsubject
      refine .inr ⟨fun owner hlisted => ?_, fun other hother hpushing => ?_⟩
      · obtain ⟨hold, hkept⟩ := List.mem_filter.mp hlisted
        obtain ⟨-, other, hother⟩ := hs.ledger owner i hold
        obtain rfl := Option.some.inj (hi.symm.trans hother.found)
        exact absurd (by rw [hother.owned]) (of_decide_eq_true hkept)
      · obtain rfl := Option.some.inj (hi.symm.trans hother)
        refine absurd (holding_locked howned (List.mem_of_getElem? hi) ?_) (ne_true_of_eq_false hfree)
        rw [Item.holding, hpushing]
        rfl
  · rw [hsame]
    exact hs.rest d (List.mem_of_getElem? hd) j h
  · intro left h
    rcases h with h | h <;> cases h

theorem Sound.flagged (hs : Sound p own s log) (hi : s.items[i]? = some item) (cancelled : Bool)
    {aborted : Bool}
    (haborted : aborted = item.aborted ∨ i ∉ s.entries ∧ item.spawner ≠ .inserting) :
    Sound p own (s.setItem i { item with cancelled := cancelled, aborted := aborted }) log := by
  have hmem := List.mem_of_getElem? hi
  have hid := hs.id_eq hi
  refine hs.moved hi ⟨rfl, rfl, rfl, rfl, rfl, fun _ h => h, fun _ _ => Iff.rfl, .inl, fun _ _ => .inl,
    fun h => ?_, fun h => ?_, fun h => h, fun h => h, fun h => h, fun _ _ h => h⟩
  · obtain ⟨hworker, hentry, hwaiting, hlive⟩ := hs.fresh item hmem h
    rcases haborted with rfl | ⟨-, hplaced⟩
    · exact ⟨hworker, hid ▸ hentry, hwaiting, hlive⟩
    · exact absurd h hplaced
  · rcases haborted with rfl | ⟨hgone, -⟩
    · exact hs.present item hmem (hid ▸ h)
    · exact absurd h hgone

theorem Sound.advanced (hs : Sound p own s log) (hd : s.drains[n]? = some d) (hi : s.items[i]? = some item)
    (cancelled : Bool) {aborted : Bool} {left : List Nat}
    (hpc : d.pc = .cancelling (i :: left) ∧ aborted = item.aborted ∧ d'.pc = .cancelling left ∨
      d.pc = .aborting (i :: left) ∧ d'.pc = .aborting left)
    (htaken : d'.taken = d.taken) (hjoins : d'.joins = d.joins) :
    Sound p own ((s.setItem i { item with cancelled := cancelled, aborted := aborted }).setDrain n d')
      log := by
  have hmem := List.mem_of_getElem? hd
  have hflags : i :: left ⊆ d.taken := by
    rcases hpc with ⟨hpc, -, -⟩ | ⟨hpc, -⟩
    · exact hs.flags d hmem _ (.inl hpc)
    · exact hs.flags d hmem _ (.inr hpc)
  have haborted : aborted = item.aborted ∨ i ∉ s.entries ∧ item.spawner ≠ .inserting := by
    rcases hpc with ⟨-, heq, -⟩ | -
    · exact .inl heq
    · obtain ⟨hgone, other, hfound, hplaced⟩ := hs.taken d hmem i (hflags List.mem_cons_self)
      obtain rfl := Option.some.inj (hi.symm.trans hfound)
      exact .inr ⟨hgone, hplaced⟩
  refine (hs.flagged hi cancelled haborted).paced hd htaken hjoins ?_ (.inl ?_) (fun ids => ?_)
    (fun left' h => ?_) ?_
  · rcases hpc with ⟨hpc, -, hpc'⟩ | ⟨hpc, hpc'⟩ <;> rw [hpc, hpc'] <;> rfl
  · rcases hpc with ⟨hpc, -, hpc'⟩ | ⟨hpc, hpc'⟩ <;> rw [hpc, hpc'] <;> rfl
  · rcases hpc with ⟨-, -, hpc'⟩ | ⟨-, hpc'⟩ <;> rw [hpc'] <;> exact nofun
  · have heq : left' = left := by
      rcases hpc with ⟨-, -, hpc'⟩ | ⟨-, hpc'⟩ <;> rw [hpc'] at h <;> rcases h with h | h <;> cases h <;>
        rfl
    rw [heq, htaken]
    exact List.Subset.trans (List.subset_cons_self i left) hflags
  · rcases hpc with ⟨-, -, hpc'⟩ | ⟨-, hpc'⟩ <;> rw [hpc'] <;> exact nofun

theorem Sound.rejoined (hs : Sound p own s log) (hd : s.drains[n]? = some d) {counters : Counters}
    (hpc : d'.pc = .joining) (htaken : d'.taken = d.taken) (hjoins : d'.joins = d.joins)
    (hheld : d.pc.held = 0) (hsubject : d.pc.subject? = none ∨ p.owned = false) :
    Sound p own ({ s with counters := counters }.setDrain n d') log := by
  refine hs.paced hd htaken hjoins ?_ (hsubject.imp_left fun h => ?_) (fun ids => ?_) (fun left h => ?_) ?_
  · rw [hpc, hheld]
    rfl
  · rw [hpc, h]
    rfl
  · rw [hpc]
    exact nofun
  · rw [hpc] at h
    rcases h with h | h <;> cases h
  · rw [hpc]
    exact nofun

theorem sound_drain (hs : Sound p own s log) (hd : s.drains[n]? = some d) {next : Nat}
    (h : stepDrain p s n d next = some t) :
    Sound p own t (log ++ d.pc.reaping?.toList) := by
  unfold stepDrain at h
  cases hpc : d.pc with
  | called ids =>
    rw [hpc] at h
    cases h
    rw [show (DrainPc.called ids).reaping? = none from rfl, Option.toList_none, List.append_nil]
    exact hs.emptied hd hpc
  | cancelling left =>
    rw [hpc] at h
    rw [show (DrainPc.cancelling left).reaping? = none from rfl, Option.toList_none, List.append_nil]
    cases left with
    | nil =>
      cases h
      exact hs.rejoined hd rfl rfl rfl (by rw [hpc]; rfl) (.inl (by rw [hpc]; rfl))
    | cons id left =>
      obtain ⟨item, hi, rfl⟩ := Option.map_eq_some_iff.mp h
      exact hs.advanced hd hi _ (.inl ⟨hpc, rfl, rfl⟩) rfl rfl
  | joining =>
    simp only [hpc] at h
    rw [show DrainPc.joining.reaping? = none from rfl, Option.toList_none, List.append_nil]
    by_cases hjoins : d.joins = []
    · rw [if_pos hjoins] at h
      cases h
      refine hs.paced hd rfl rfl ?_ (.inl ?_) (fun _ => nofun) (fun left h => ?_) fun _ => hjoins
      · rw [hpc]
        rfl
      · rw [hpc]
        rfl
      · rcases h with h | h <;> cases h
    · rw [if_neg hjoins] at h
      obtain ⟨hnext, heq⟩ := Option.ite_none_right_eq_some.mp h
      obtain ⟨joined, -, rfl⟩ := Option.map_eq_some_iff.mp heq
      exact hs.joined hd hpc hnext joined.outcome
  | aborting left =>
    rw [hpc] at h
    rw [show (DrainPc.aborting left).reaping? = none from rfl, Option.toList_none, List.append_nil]
    cases left with
    | nil =>
      cases h
      exact hs.rejoined hd rfl rfl rfl (by rw [hpc]; rfl) (.inl (by rw [hpc]; rfl))
    | cons id left =>
      obtain ⟨item, hi, rfl⟩ := Option.map_eq_some_iff.mp h
      exact hs.advanced hd hi _ (.inr ⟨hpc, rfl⟩) rfl rfl
  | reaping id outcome =>
    rw [hpc] at h
    cases h
    exact hs.counted hd hpc _
  | counting id outcome =>
    rw [hpc] at h
    cases h
    rw [show (DrainPc.counting id outcome).reaping? = none from rfl, Option.toList_none, List.append_nil]
    by_cases howned : p.owned = true
    · rw [if_pos howned]
      change Sound p own ({ s with counters := p.tally s.counters outcome }.setDrain n
        { d with pc := .detaching id outcome }) log
      refine hs.paced hd rfl rfl ?_ (.inl ?_) (fun _ => nofun) (fun left h => ?_) nofun
      · rw [hpc]
        rfl
      · rw [hpc]
        rfl
      · rcases h with h | h <;> cases h
    · rw [if_neg howned]
      change Sound p own ({ s with counters := p.tally s.counters outcome }.setDrain n
        (d.recorded outcome)) log
      exact hs.rejoined hd rfl rfl rfl (by rw [hpc]; rfl) (.inr (Bool.eq_false_of_not_eq_true howned))
  | detaching id outcome =>
    rw [hpc] at h
    rw [show (DrainPc.detaching id outcome).reaping? = none from rfl, Option.toList_none, List.append_nil]
    obtain ⟨item, hi, h⟩ := Option.bind_eq_some_iff.mp h
    obtain ⟨hfree, heq⟩ := Option.ite_none_left_eq_some.mp h
    cases heq
    exact hs.unlisted hd hpc hi (Bool.eq_false_of_not_eq_true hfree)
  | returned =>
    rw [hpc] at h
    cases h

/-! ## The other steps -/

theorem Sound.forgotten (hs : Sound p own s log) {ledger : List (FiberId × Nat)}
    (h : ledger ⊆ s.ledger) : Sound p own { s with ledger := ledger } log where
  ids := hs.ids
  books := hs.books
  fresh := hs.fresh
  present := hs.present
  pushing := hs.pushing
  ledger owner id hlisted := by
    obtain ⟨howned, item, hfound, howner, hunfinished⟩ := hs.ledger owner id (h hlisted)
    exact ⟨howned, item, hfound, howner, hunfinished⟩
  called hown howned d hd ids hpc id hid := (hs.called hown howned d hd ids hpc id hid).mono rfl h
  taken := hs.taken
  idle hown howned d hd id hid := (hs.idle hown howned d hd id hid).mono rfl h
  rest := hs.rest
  flags := hs.flags
  unopened := hs.unopened
  returned := hs.returned
  handles := hs.handles

theorem Unfinished.opened (d : Drain) (h : Unfinished s i item) :
    Unfinished { s with drains := s.drains ++ [d] } i item :=
  h.imp_right (.imp_right fun ⟨e, he, hhas⟩ => ⟨e, List.mem_append_left _ he, hhas⟩)

/-- `cancel_all` is called; `own` promises that the tasks are idle. -/
theorem Sound.opened (hs : Sound p own s log) {ids : List Nat}
    (hids : own → p.owned = true → ∀ id ∈ ids, Idle s id) :
    Sound p own { s with drains := s.drains ++ [{ pc := .called ids }] } log := by
  have hmem : ∀ d, d ∈ s.drains ++ [({ pc := .called ids } : Drain)] →
      d ∈ s.drains ∨ d = { pc := .called ids } := by
    intro d hd
    exact (List.mem_append.mp hd).imp_right List.mem_singleton.mp
  refine ⟨hs.ids, ?_, hs.fresh, hs.present, ?_, ?_, ?_, ?_, ?_, ?_, ?_, ?_, ?_, ?_⟩
  · rw [← hs.books]
    simp only [held, List.map_append, List.map_singleton, List.sum_append, List.sum_singleton]
    rw [show ({ pc := .called ids } : Drain).held = 0 from rfl, add_zero]
  · intro item hitem hpushing
    obtain ⟨howned, hunfinished⟩ := hs.pushing item hitem hpushing
    exact ⟨howned, hunfinished.opened _⟩
  · intro owner id hlisted
    obtain ⟨howned, item, hfound, howner, hunfinished⟩ := hs.ledger owner id hlisted
    exact ⟨howned, item, hfound, howner, hunfinished.opened _⟩
  · intro hown howned d hd ids' hpc id hid
    rcases hmem d hd with hd | rfl
    · exact (hs.called hown howned d hd ids' hpc id hid).mono rfl (List.Subset.refl _)
    · cases hpc
      exact (hids hown howned id hid).mono rfl (List.Subset.refl _)
  · intro d hd id hid
    rcases hmem d hd with hd | rfl
    · exact hs.taken d hd id hid
    · cases hid
  · intro hown howned d hd id hid
    rcases hmem d hd with hd | rfl
    · exact (hs.idle hown howned d hd id hid).mono rfl (List.Subset.refl _)
    · cases hid
  · intro d hd id hid
    rcases hmem d hd with hd | rfl
    · exact hs.rest d hd id hid
    · cases hid
  · intro d hd left h
    rcases hmem d hd with hd | rfl
    · exact hs.flags d hd left h
    · rcases h with h | h <;> cases h
  · intro d hd ids' hpc
    rcases hmem d hd with hd | rfl
    · exact hs.unopened d hd ids' hpc
    · rfl
  · intro d hd hpc
    rcases hmem d hd with hd | rfl
    · exact hs.returned d hd hpc
    · cases hpc
  · intro d hd
    rcases hmem d hd with hd | rfl
    · exact hs.handles d hd
    · exact List.Subset.refl []

theorem Sound.spawned (hs : Sound p own s log) (owner : FiberId) (cleanup activation : Bool) :
    Sound p own { s with
      items := s.items ++ [⟨s.items.length, owner, cleanup, activation,
        if p.owned then .pushing else .inserting, false, false, .waiting⟩]
      entries := if p.owned then s.entries ++ [s.items.length] else s.entries } log := by
  generalize hnew : (⟨s.items.length, owner, cleanup, activation,
    if p.owned then .pushing else .inserting, false, false, .waiting⟩ : Item) = new
  generalize hentries : (if p.owned then s.entries ++ [s.items.length] else s.entries) = entries
  have hid : new.id = s.items.length := by rw [← hnew]
  have hfound : ∀ {j : Nat} {item : Item}, s.items[j]? = some item → (s.items ++ [new])[j]? = some item := by
    intro j item h
    rw [List.getElem?_append_left (List.getElem?_eq_some_iff.mp h).1]
    exact h
  have hmem : ∀ item ∈ s.items ++ [new], item ∈ s.items ∧ item.id ≠ s.items.length ∨ item = new := by
    intro item hitem
    rcases List.mem_append.mp hitem with hold | hlast
    · obtain ⟨j, hj⟩ := List.mem_iff_getElem?.mp hold
      refine .inl ⟨hold, ?_⟩
      rw [hs.id_eq hj]
      exact (List.getElem?_eq_some_iff.mp hj).1.ne
    · exact .inr (List.mem_singleton.mp hlast)
  have hkept : ∀ j, j ≠ s.items.length → (j ∈ entries ↔ j ∈ s.entries) := by
    intro j hj
    rw [← hentries]
    split
    · simp [hj]
    · rfl
  have habsent : s.items.length ∉ s.entries := by
    intro h
    obtain ⟨item, hi, -⟩ := hs.entry_found h
    exact absurd (List.getElem?_eq_some_iff.mp hi).1 (Nat.lt_irrefl _)
  have hunfinished : ∀ {j : Nat} {item : Item}, j ≠ s.items.length → Unfinished s j item →
      Unfinished { s with items := s.items ++ [new], entries := entries } j item := by
    intro j item hj h
    exact h.imp_left (hkept j hj).mpr
  have hidle : ∀ {j : Nat}, Idle s j → Idle { s with items := s.items ++ [new], entries := entries } j := by
    intro j ⟨⟨item, hi, hreturned⟩, hunlisted⟩
    exact ⟨⟨item, hfound hi, hreturned⟩, hunlisted⟩
  refine ⟨?_, ?_, ?_, ?_, ?_, ?_, ?_, ?_, ?_, hs.rest, hs.flags, hs.unopened, hs.returned,
    hs.handles⟩
  · intro j item hj
    rcases Nat.lt_or_ge j s.items.length with hlt | hge
    · rw [List.getElem?_append_left hlt] at hj
      exact hs.ids j item hj
    · rw [List.getElem?_append_right hge] at hj
      rw [List.getElem?_singleton] at hj
      obtain ⟨hzero, heq⟩ := Option.ite_none_right_eq_some.mp hj
      cases heq
      rw [hid]
      omega
  · have hbooks : new.held + (entries : Multiset Nat) = {s.items.length} + s.entries := by
      rw [← hnew, ← hentries, Item.held]
      cases p.owned with
      | true =>
        simp only [if_true, reduceCtorEq, if_false, Wrapper.reaping?, Option.isSome_none,
          Bool.false_eq_true, zero_add, ← Multiset.coe_add, Multiset.coe_singleton]
        exact add_comm _ _
      | false =>
        simp only [Bool.false_eq_true, if_false, if_true, Wrapper.reaping?, Option.isSome_none, add_zero]
    rw [List.length_append, List.length_singleton, Multiset.range_succ, ← hs.books,
      ← Multiset.singleton_add]
    unfold held
    rw [List.map_append, List.map_singleton, List.sum_append, List.sum_singleton]
    calc (s.items.map Item.held).sum + new.held + entries + (s.drains.map Drain.held).sum + recorded log
        = (new.held + entries) + (s.items.map Item.held).sum + (s.drains.map Drain.held).sum +
            recorded log := by abel
      _ = _ := by
        rw [hbooks]
        abel
  · intro item hitem hinserting
    rcases hmem item hitem with ⟨hold, hother⟩ | rfl
    · rw [hkept _ hother]
      exact hs.fresh item hold hinserting
    · rw [← hnew] at hinserting ⊢
      rw [← hentries]
      cases howned : p.owned with
      | true =>
        simp [howned] at hinserting
      | false => exact ⟨rfl, habsent, rfl, rfl⟩
  · intro item hitem hentry
    rcases hmem item hitem with ⟨hold, hother⟩ | rfl
    · rw [hkept _ hother] at hentry
      exact hs.present item hold hentry
    · rw [← hnew]
      exact ⟨rfl, rfl⟩
  · intro item hitem hpushing
    rcases hmem item hitem with ⟨hold, hother⟩ | rfl
    · obtain ⟨howned, h⟩ := hs.pushing item hold hpushing
      exact ⟨howned, hunfinished hother h⟩
    · rw [← hnew] at hpushing ⊢
      rw [← hentries]
      cases howned : p.owned with
      | true => exact ⟨rfl, .inl (List.mem_append_right _ List.mem_cons_self)⟩
      | false => simp [howned] at hpushing
  · intro owner' j hlisted
    obtain ⟨howned, item, hi, howner, h⟩ := hs.ledger owner' j hlisted
    exact ⟨howned, item, hfound hi, howner,
      hunfinished (List.getElem?_eq_some_iff.mp hi).1.ne h⟩
  · intro hown howned d hd ids hpc j hj
    exact hidle (hs.called hown howned d hd ids hpc j hj)
  · intro d hd j hj
    obtain ⟨hgone, item, hi, hplaced⟩ := hs.taken d hd j hj
    rw [hkept _ (List.getElem?_eq_some_iff.mp hi).1.ne]
    exact ⟨hgone, item, hfound hi, hplaced⟩
  · intro hown howned d hd j hj
    exact hidle (hs.idle hown howned d hd j hj)

/-- The disposal takes the ledger of a Fiber that nobody holds, so the spawners have returned. -/
theorem Sound.disposed (hs : Sound p own s log) {owner : FiberId} (hfree : s.locked p owner = false) :
    Sound p own { s with
      ledger := s.ledger.filter (·.1 ≠ owner)
      drains := s.drains ++ [{ pc := .called ((s.ledger.filter (·.1 = owner)).map (·.2)) }] } log := by
  refine (hs.forgotten (List.filter_subset_self s.ledger)).opened fun hown howned id hid => ?_
  obtain ⟨⟨owner', id'⟩, htaken, rfl⟩ := List.mem_map.mp hid
  obtain ⟨hlisted, howner⟩ := List.mem_filter.mp htaken
  obtain rfl : owner' = owner := of_decide_eq_true howner
  obtain ⟨-, item, hfound, rfl, -⟩ := hs.ledger _ _ hlisted
  have hmem := List.mem_of_getElem? hfound
  refine ⟨⟨item, hfound, ?_⟩, fun other hother => ?_⟩
  · cases hspawner : item.spawner with
    | returned => rfl
    | inserting =>
      have hworker := (hs.fresh item hmem hspawner).1
      rw [howned] at hworker
      cases hworker
    | pushing | starting | releasing =>
      refine absurd (holding_locked howned hmem ?_) (ne_true_of_eq_false hfree)
      rw [Item.holding, hspawner]
      rfl
  · obtain ⟨hother, hkept⟩ := List.mem_filter.mp hother
    obtain ⟨-, item', hfound', rfl, -⟩ := hs.ledger _ _ hother
    obtain rfl := Option.some.inj (hfound.symm.trans hfound')
    exact absurd rfl (of_decide_eq_true hkept)

theorem sound_step (hs : Sound p own s log) {l : Label} (hl : own → ∀ ids, l ≠ .drain ids)
    (h : step p s l = some t) : Sound p own t (log ++ records s l t) := by
  cases l with
  | spawn owner cleanup activation =>
    obtain ⟨-, heq⟩ := Option.ite_none_left_eq_some.mp h
    cases heq
    change Sound p own _ (log ++ [])
    rw [List.append_nil]
    exact hs.spawned owner cleanup activation
  | spawner id =>
    obtain ⟨item, hi, h⟩ := Option.bind_eq_some_iff.mp h
    change Sound p own _ (log ++ [])
    rw [List.append_nil]
    exact sound_spawner hs hi h
  | cancel id =>
    obtain ⟨item, hi, rfl⟩ := Option.map_eq_some_iff.mp h
    change Sound p own _ (log ++ [])
    rw [List.append_nil]
    exact hs.flagged hi true (.inl rfl)
  | wrapper id move =>
    obtain ⟨item, hi, h⟩ := Option.bind_eq_some_iff.mp h
    obtain ⟨q, hq, rfl⟩ := Option.map_eq_some_iff.mp h
    exact sound_wrapper hs hi hq
  | drain ids =>
    cases h
    change Sound p own _ (log ++ [])
    rw [List.append_nil]
    exact hs.opened fun hown => absurd rfl (hl hown ids)
  | dispose owner =>
    obtain ⟨hfree, heq⟩ := Option.ite_none_left_eq_some.mp h
    cases heq
    change Sound p own _ (log ++ [])
    rw [List.append_nil]
    exact hs.disposed (Bool.eq_false_of_not_eq_true hfree)
  | drainer n next =>
    obtain ⟨d, hd, h⟩ := Option.bind_eq_some_iff.mp h
    rw [records, hd, Option.bind_some]
    exact sound_drain hs hd h
  | deadline n =>
    obtain ⟨d, hd, h⟩ := Option.bind_eq_some_iff.mp h
    obtain ⟨⟨hpc, -, -⟩, heq⟩ := Option.ite_none_right_eq_some.mp h
    cases heq
    change Sound p own _ (log ++ [])
    rw [List.append_nil]
    refine hs.paced hd rfl rfl ?_ (.inl ?_) (fun _ => (by simp)) (fun left h => ?_) (by simp)
    · rw [hpc]
      rfl
    · rw [hpc]
      rfl
    · rcases h with h | h <;> cases h
      exact List.Subset.refl _
  | forget owner =>
    obtain ⟨-, heq⟩ := Option.ite_none_left_eq_some.mp h
    cases heq
    change Sound p own _ (log ++ [])
    rw [List.append_nil]
    exact hs.forgotten (List.filter_subset_self s.ledger)

theorem sound_reach {q : State × List (Nat × TaskOutcome)}
    (h : Reach (recording (step p) records) (fun _ l => own → ∀ ids, l ≠ .drain ids) ({}, []) q) :
    Sound p own q.1 q.2 := by
  induction h with
  | refl => exact sound_initial p own
  | tail _ hl hstep ih =>
    obtain ⟨hstep, hlog⟩ := recording_eq_some hstep
    rw [hlog]
    exact sound_step ih hl hstep

end Cordis.Supervision
