import Cordis.Dispatch.Listing

/-!
# What a dispatch sees of registrations and removals

Between two updates the mapped slot lists the arena. A dispatch that looks its slot up after a handler was
registered gets the slot that lists it, and the slot stays mapped until the handler is removed. A dispatch
that looked the slot up before may hold one that was unmapped since, and this one is empty.
-/

namespace Cordis.EventBus

open Registry Machine Threads

variable {κ : Type} [DecidableEq κ]

/-- A call of `register_gated` or `remove` that has not returned. -/
def Thread.Updating : Thread κ → Prop
  | register _ _ (.done _) | remove _ (.done _) | dispatch .. => False
  | _ => True

/-- No update is in progress. -/
def Registry.Quiet (s : Registry κ) : Prop := ∀ th ∈ s.threads, ¬ th.Updating

/-- The ids that the arena holds for an event. -/
def Registry.ids (s : Registry κ) (k : κ) : List Nat :=
  (s.handlers.filter (·.event = k)).map (·.id)

section

variable {s t u : Registry κ} {n : Nat} {th : Thread κ} {k : κ} {a id : Nat}

omit [DecidableEq κ] in
theorem Thread.Updating.of_holds (h : th.holds = some (k, a)) : th.Updating := by
  cases th with
  | register k' gate pc =>
    cases pc with
    | slot | lock | done => cases h
    | check | drop | insert | load | store | unlock => trivial
  | remove id pc =>
    cases pc with
    | find | slot | lock | done => cases h
    | take | load | store | check | unmap | unlock => trivial
  | dispatch => cases h

omit [DecidableEq κ] in
theorem Thread.Updating.of_owes (h : th.Owes k a) : th.Updating := by
  cases th with
  | register k' gate pc =>
    cases pc with
    | slot | drop | load | store | unlock | done => exact h.elim
    | lock | check | insert => trivial
  | remove id pc =>
    cases pc with
    | find | slot | lock | take | unlock | done => exact h.elim
    | load | store | check | unmap => trivial
  | dispatch => exact h.elim

theorem entries_ids : (s.entries k).map (·.id) = s.ids k := by
  rw [Registry.entries, Registry.ids, List.map_map]
  rfl

/-! ## Between two updates -/

theorem Sound.ids_increasing (h : Sound s) (k : κ) : (s.ids k).Pairwise (· < ·) :=
  h.ordered.sublist (List.filter_sublist.map _)

theorem Sound.quiet_listed (h : Sound s) (hq : s.Quiet) (hslot : s.slots k = some a) :
    (s.snapshot k a).map (·.id) = s.ids k := by
  have hfree : s.writer k a = false := by
    by_contra hlocked
    obtain ⟨o, ho, hholds⟩ := (h.writer k a).mp (by simpa using hlocked)
    exact hq o ho (.of_holds hholds)
  rw [← h.listed k a hslot hfree]
  exact entries_ids

theorem Sound.quiet_mapped (h : Sound s) (hq : s.Quiet) : s.slots k ≠ none ↔ s.ids k ≠ [] := by
  have hids : s.ids k = [] ↔ s.entries k = [] := by rw [← entries_ids, List.map_eq_nil_iff]
  rw [Ne, Ne, hids]
  constructor
  · intro hmapped hempty
    obtain ⟨a, hslot⟩ := Option.ne_none_iff_exists'.mp hmapped
    rcases h.owed k a hslot with hentries | ⟨o, ho, howes⟩
    · exact hentries hempty
    · exact hq o ho (.of_owes howes)
  · exact h.mapped k

/-! ## A snapshot while updates are in progress -/

theorem Sound.registered_listed (h : Sound s) {gate : Nat}
    (hreg : Thread.register k gate (.done id) ∈ s.threads) (hrem : ¬ s.Removing id)
    (hslot : s.slots k = some a) : ∃ x ∈ s.snapshot k a, x.id = id := by
  obtain ⟨x, hx, hid⟩ : ∃ x ∈ s.entries k, x.id = id :=
    present_iff.mp ((h.registered k gate _ id hreg rfl).2.resolve_right hrem)
  by_cases hlocked : s.writer k a = true
  · obtain ⟨o, ho, hholds⟩ := (h.writer k a).mp hlocked
    obtain ⟨m, hm⟩ := List.mem_iff_getElem?.mp ho
    have hsane := h.sane m o hm
    -- the handler that the holder has inserted without listing it is another one
    have happended : ∀ {k' gate'} {pc : RegisterPc} {id'}, o = .register k' gate' pc →
        pc.id? = some id' → pc ≠ .done id → s.entries k = s.snapshot k a ++ [⟨id', gate'⟩] →
          ∃ x ∈ s.snapshot k a, x.id = id := by
      rintro k' gate' pc id' rfl hpc hne hentries
      rw [hentries] at hx
      rcases List.mem_append.mp hx with hx | hx
      · exact ⟨x, hx, hid⟩
      · obtain ⟨m', hm'⟩ := List.mem_iff_getElem?.mp hreg
        rw [List.mem_singleton.mp hx] at hid
        have hmm := h.registrars m m' _ _ _ _ _ _ id hm hm' (hpc.trans (congrArg some hid)) rfl
        rw [hmm, hm'] at hm
        cases hm
        exact absurd rfl hne
    cases o with
    | register k' gate' pc =>
      cases pc with
      | slot | lock | done => cases hholds
      | check | drop =>
        cases hholds
        exact ⟨x, hsane.2 hslot ▸ hx, hid⟩
      | insert | unlock =>
        cases hholds
        exact ⟨x, hsane.2 ▸ hx, hid⟩
      | load =>
        cases hholds
        exact happended rfl rfl nofun hsane.2
      | store =>
        cases hholds
        exact happended rfl rfl nofun (hsane.2.1.trans hsane.2.2)
    | remove id' pc =>
      cases pc with
      | find | slot | lock | done => cases hholds
      | take =>
        cases hholds
        exact ⟨x, hsane.2.2 ▸ hx, hid⟩
      | check | unmap =>
        cases hholds
        exact ⟨x, hsane.2.1 ▸ hx, hid⟩
      | load =>
        cases hholds
        rw [hsane.2.1] at hx
        exact ⟨x, (List.mem_filter.mp hx).1, hid⟩
      | store =>
        cases hholds
        rw [hsane.2.1.trans hsane.2.2.1] at hx
        exact ⟨x, (List.mem_filter.mp hx).1, hid⟩
      | unlock =>
        cases hholds
        exact ⟨x, hsane.2.1 hslot ▸ hx, hid⟩
    | dispatch => cases hholds
  · rw [h.listed k a hslot (by simpa using hlocked)] at hx
    exact ⟨x, hx, hid⟩

theorem Sound.removed_unlisted (h : Sound s) (hrem : Thread.remove id (.done true) ∈ s.threads)
    {x : SnapshotHandler} (hx : x ∈ s.snapshot k a) : x.id ≠ id := by
  intro hid
  obtain ⟨m, hm⟩ := List.mem_iff_getElem?.mp hrem
  have habsent : s.Absent id := h.sane m _ hm rfl
  have hslot : s.slots k = some a := by
    by_contra hstale
    rw [h.stale k a hstale] at hx
    cases hx
  have hentry : x ∉ s.entries k := by
    intro hmem
    obtain ⟨e, he, -, rfl⟩ := mem_entries.mp hmem
    exact habsent.2 e he hid
  by_cases hlocked : s.writer k a = true
  · obtain ⟨o, ho, hholds⟩ := (h.writer k a).mp hlocked
    obtain ⟨m', hm'⟩ := List.mem_iff_getElem?.mp ho
    have hsane := h.sane m' o hm'
    -- the holder that has yet to take a handler out of the list is removing another one
    have hfiltered : ∀ {id'} {pc : RemovePc κ}, o = .remove id' pc → pc ≠ .done true →
        s.entries k = (s.snapshot k a).filter (·.id ≠ id') → False := by
      rintro id' pc rfl hne hentries
      apply hentry
      rw [hentries]
      refine List.mem_filter.mpr ⟨hx, decide_eq_true fun hsame => hne ?_⟩
      rw [hid] at hsame
      subst hsame
      have hmm := h.removers m' m id pc _ hm' hm
      rw [hmm, hm] at hm'
      cases hm'
      rfl
    cases o with
    | register k' gate' pc =>
      cases pc with
      | slot | lock | done => cases hholds
      | check | drop =>
        cases hholds
        exact hentry (hsane.2 hslot ▸ hx)
      | insert | unlock =>
        cases hholds
        exact hentry (hsane.2 ▸ hx)
      | load =>
        cases hholds
        exact hentry (hsane.2 ▸ List.mem_append_left _ hx)
      | store =>
        cases hholds
        exact hentry ((hsane.2.1.trans hsane.2.2) ▸ List.mem_append_left _ hx)
    | remove id' pc =>
      cases pc with
      | find | slot | lock | done => cases hholds
      | take =>
        cases hholds
        exact hentry (hsane.2.2 ▸ hx)
      | check | unmap =>
        cases hholds
        exact hentry (hsane.2.1 ▸ hx)
      | load =>
        cases hholds
        exact hfiltered rfl nofun hsane.2.1
      | store =>
        cases hholds
        exact hfiltered rfl nofun (hsane.2.1.trans hsane.2.2.1)
      | unlock =>
        cases hholds
        exact hentry (hsane.2.1 hslot ▸ hx)
    | dispatch => cases hholds
  · exact hentry (h.listed k a hslot (by simpa using hlocked) ▸ hx)

/-! ## One step -/

theorem step_thread {l : Registry.Label κ} (hs : s.step l = some u) (hn : s.threads[n]? = some th) :
    u.threads[n]? = some th ∨ ∃ v th', stepThread s th = some (v, th') ∧
      u = { v with threads := s.threads.set n th' } ∧ u.threads[n]? = some th' := by
  cases l with
  | register | remove | dispatch =>
    cases hs
    left
    rw [Registry.spawn, List.getElem?_append_left (List.getElem?_eq_some_iff.mp hn).1]
    exact hn
  | run m =>
    obtain ⟨o, hm, hrun⟩ := Option.bind_eq_some_iff.mp hs
    obtain ⟨⟨v, o'⟩, hv, heq⟩ := Option.bind_eq_some_iff.mp hrun
    cases heq
    by_cases hmn : n = m
    · subst hmn
      rw [hn] at hm
      cases hm
      exact .inr ⟨v, o', hv, rfl, (get_set hn).mpr (.inl ⟨rfl, rfl⟩)⟩
    · exact .inl ((get_set hm).mpr (.inr ⟨hmn, hn⟩))

theorem returned_step {l : Registry.Label κ} (hs : s.step l = some u)
    (hdone : stepThread s th = none) (hth : th ∈ s.threads) : th ∈ u.threads := by
  obtain ⟨m, hm⟩ := List.mem_iff_getElem?.mp hth
  rcases step_thread hs hm with hkept | ⟨v, th', hrun, -⟩
  · exact List.mem_of_getElem? hkept
  · rw [hdone] at hrun
    contradiction

theorem removing_step {l : Registry.Label κ} (hs : s.step l = some u) (hrem : s.Removing id) :
    u.Removing id := by
  obtain ⟨pc, hpc⟩ := hrem
  obtain ⟨m, hm⟩ := List.mem_iff_getElem?.mp hpc
  rcases step_thread hs hm with hkept | ⟨v, th', hrun, -, hnow⟩
  · exact ⟨pc, List.mem_of_getElem? hkept⟩
  · have hsame := stepThread_same hrun
    cases hsame
    exact ⟨_, List.mem_of_getElem? hnow⟩

theorem slot_slots {k' : κ} (hslot : s.slots k = some a) : (s.slot k').1.slots k = some a := by
  unfold Registry.slot
  split
  · exact hslot
  · rename_i hnone
    have hne : k ≠ k' := by
      rintro rfl
      rw [hslot] at hnone
      contradiction
    exact (Function.update_of_ne hne _ _).trans hslot

/-- A slot is unmapped only when the event has no handler, and a handler leaves the arena only by its
removal. -/
theorem Sound.tables_step (h : Sound s) {l : Registry.Label κ} (hs : s.step l = some u) :
    (∀ k a, s.slots k = some a → s.entries k ≠ [] → u.slots k = some a) ∧
      ∀ id k, s.Present id k → u.Present id k ∨ ∃ k' b last, .remove id (.load k' b last) ∈ u.threads := by
  cases l with
  | register | remove | dispatch =>
    cases hs
    exact ⟨fun k a hslot _ => hslot, fun id k hpresent => .inl hpresent⟩
  | run m =>
    obtain ⟨o, hm, hrun⟩ := Option.bind_eq_some_iff.mp hs
    obtain ⟨⟨v, o'⟩, hv, heq⟩ := Option.bind_eq_some_iff.mp hrun
    cases heq
    show (∀ k a, s.slots k = some a → s.entries k ≠ [] → v.slots k = some a) ∧
      ∀ id k, s.Present id k → v.Present id k ∨ ∃ k' b last,
        Thread.remove id (.load k' b last) ∈ s.threads.set m o'
    have hkept : v.handlers = s.handlers → ∀ id k, s.Present id k → v.Present id k ∨ ∃ k' b last,
        Thread.remove id (.load k' b last) ∈ s.threads.set m o' := by
      intro heq id k hpresent
      left
      rw [Registry.Present, heq]
      exact hpresent
    cases o with
    | register k' gate pc =>
      obtain ⟨⟨w, pc'⟩, hstep, heq⟩ := Option.map_eq_some_iff.mp hv
      cases heq
      cases pc with
      | slot =>
        cases hstep
        refine ⟨fun k a hslot _ => slot_slots hslot, hkept ?_⟩
        unfold Registry.slot
        split <;> rfl
      | lock b =>
        simp only [stepRegister] at hstep
        split_ifs at hstep
        cases hstep
        exact ⟨fun k a hslot _ => hslot, hkept rfl⟩
      | insert b =>
        cases hstep
        refine ⟨fun k a hslot _ => hslot, ?_⟩
        rintro id k ⟨e, he, hid⟩
        exact .inl ⟨e, List.mem_append_left _ he, hid⟩
      | done => cases hstep
      | check | drop | load | store | unlock =>
        cases hstep
        exact ⟨fun k a hslot _ => hslot, hkept rfl⟩
    | remove id' pc =>
      obtain ⟨⟨w, pc'⟩, hstep, heq⟩ := Option.map_eq_some_iff.mp hv
      cases heq
      cases pc with
      | find =>
        simp only [stepRemove] at hstep
        split at hstep <;> cases hstep <;> exact ⟨fun k a hslot _ => hslot, hkept rfl⟩
      | slot =>
        cases hstep
        refine ⟨fun k a hslot _ => slot_slots hslot, hkept ?_⟩
        unfold Registry.slot
        split <;> rfl
      | lock =>
        simp only [stepRemove] at hstep
        split_ifs at hstep
        cases hstep
        exact ⟨fun k a hslot _ => hslot, hkept rfl⟩
      | take k' b =>
        simp only [stepRemove] at hstep
        split_ifs at hstep
        · cases hstep
          refine ⟨fun k a hslot _ => hslot, ?_⟩
          rintro id k ⟨e, he, hid, hevent⟩
          by_cases hsame : id = id'
          · subst hsame
            exact .inr ⟨_, _, _, (mem_set hm).mpr (.inl rfl)⟩
          · refine .inl ⟨e, List.mem_filter.mpr ⟨he, ?_⟩, hid, hevent⟩
            simpa [hid] using hsame
        · cases hstep
          exact ⟨fun k a hslot _ => hslot, hkept rfl⟩
      | unmap k' b =>
        cases hstep
        obtain ⟨-, -, hempty, -⟩ := h.sane m _ hm
        refine ⟨fun k a hslot hentries => ?_, hkept rfl⟩
        have hne : k ≠ k' := by
          rintro rfl
          exact hentries hempty
        exact (Function.update_of_ne hne _ _).trans hslot
      | done => cases hstep
      | load | store | check | unlock =>
        cases hstep
        exact ⟨fun k a hslot _ => hslot, hkept rfl⟩
    | dispatch =>
      obtain ⟨pc', -, heq⟩ := Option.map_eq_some_iff.mp hv
      cases heq
      exact ⟨fun k a hslot _ => hslot, hkept rfl⟩

/-- A call at its start. -/
inductive Thread.Starts : Thread κ → Prop
  | register {k : κ} {gate : Nat} : Starts (.register k gate .slot)
  | remove {id : Nat} : Starts (.remove id .find)
  | dispatch {k : κ} : Starts (.dispatch k .lookup)

theorem thread_back {l : Registry.Label κ} (hs : s.step l = some u) (hn : u.threads[n]? = some th) :
    (∃ o, s.threads[n]? = some o ∧ o.Same th) ∨ s.threads[n]? = none ∧ th.Starts := by
  cases hwas : s.threads[n]? with
  | some o =>
    left
    rcases step_thread hs hwas with hkept | ⟨v, th', hrun, -, hnow⟩
    · rw [hn] at hkept
      cases hkept
      exact ⟨th, rfl, by cases th <;> constructor⟩
    · rw [hn] at hnow
      cases hnow
      exact ⟨o, rfl, stepThread_same hrun⟩
  | none =>
    right
    have hspawned : ∀ {o : Thread κ}, u.threads = s.threads ++ [o] → th = o := by
      intro o heq
      rw [heq, List.getElem?_append_right (List.getElem?_eq_none_iff.mp hwas)] at hn
      exact List.mem_singleton.mp (List.mem_of_getElem? hn)
    cases l with
    | register k gate =>
      cases hs
      obtain rfl := hspawned rfl
      exact ⟨rfl, .register⟩
    | remove id =>
      cases hs
      obtain rfl := hspawned rfl
      exact ⟨rfl, .remove⟩
    | dispatch k =>
      cases hs
      obtain rfl := hspawned rfl
      exact ⟨rfl, .dispatch⟩
    | run m =>
      obtain ⟨o, hm, hrun⟩ := Option.bind_eq_some_iff.mp hs
      obtain ⟨⟨v, o'⟩, hv, heq⟩ := Option.bind_eq_some_iff.mp hrun
      cases heq
      rcases (get_set hm).mp hn with ⟨rfl, -⟩ | ⟨-, hold⟩
      · rw [hm] at hwas
        contradiction
      · rw [hwas] at hold
        contradiction

/-! ## What a dispatch has loaded -/

/-- The dispatch has not looked its slot up. -/
def Registry.Fresh (s : Registry κ) (n : Nat) : Prop :=
  ∀ k pc, s.threads[n]? = some (.dispatch k pc) → pc = .lookup

/-- A dispatch that has its slot, or its snapshot, has the handler with it. -/
def LoadPc.Sees (s : Registry κ) (k : κ) (id : Nat) : LoadPc → Prop
  | lookup => True
  | load a => s.slots k = some a
  | done snapshot => ∃ x ∈ snapshot, x.id = id

theorem Sound.sees_step (h : Sound s) {l : Registry.Label κ} (hs : s.step l = some u) {gate : Nat}
    (hreg : Thread.register k gate (.done id) ∈ s.threads) (hrem : ¬ s.Removing id) {pc pc' : LoadPc}
    (hn : s.threads[n]? = some (.dispatch k pc)) (hn' : u.threads[n]? = some (.dispatch k pc'))
    (hsees : pc.Sees s k id) : pc'.Sees u k id := by
  have hpresent : s.Present id k := (h.registered k gate _ id hreg rfl).2.resolve_right hrem
  have hentries := Present.entries_ne_nil hpresent
  rcases step_thread hs hn with hkept | ⟨v, th', hrun, -, hnow⟩
  · rw [hn'] at hkept
    cases hkept
    cases pc with
    | lookup => trivial
    | load a => exact (h.tables_step hs).1 k a hsees hentries
    | done snapshot => exact hsees
  · obtain ⟨pc'', hload, heq⟩ := Option.map_eq_some_iff.mp hrun
    cases heq
    rw [hn'] at hnow
    cases hnow
    cases pc with
    | lookup =>
      obtain ⟨a, hslot⟩ := Option.ne_none_iff_exists'.mp (h.mapped k hentries)
      simp only [stepLoad, hslot, Option.some.injEq] at hload
      subst hload
      exact (h.tables_step hs).1 k a hslot hentries
    | load a =>
      cases hload
      exact h.registered_listed hreg hrem hsees
    | done => cases hload

theorem Sound.sees_reach (h : Sound s) {gate : Nat}
    (hreg : Thread.register k gate (.done id) ∈ s.threads) (hfresh : s.Fresh n)
    (ht : Reach Registry.step onceRemoved s t) : Sound t ∧ Thread.register k gate (.done id) ∈ t.threads ∧
      (¬ t.Removing id → ∀ pc, t.threads[n]? = some (.dispatch k pc) → pc.Sees t k id) := by
  induction ht with
  | refl =>
    refine ⟨h, hreg, fun _ pc hn => ?_⟩
    rw [hfresh k pc hn]
    trivial
  | tail _ hok hs ih =>
    obtain ⟨hsound, hreg, hsees⟩ := ih
    refine ⟨sound_step hsound hok hs, returned_step hs rfl hreg, fun hrem pc hn => ?_⟩
    have hrem' := fun hwas => hrem (removing_step hs hwas)
    rcases thread_back hs hn with ⟨o, hwas, hsame⟩ | ⟨-, hstarts⟩
    · cases hsame
      exact hsound.sees_step hs hreg hrem' hwas hn (hsees hrem' _ hwas)
    · cases hstarts
      trivial

/-- A dispatch that has its snapshot has it without the handler. -/
def LoadPc.Misses (id : Nat) : LoadPc → Prop
  | done snapshot => ∀ x ∈ snapshot, x.id ≠ id
  | _ => True

theorem Sound.misses_reach (h : Sound s) (hrem : Thread.remove id (.done true) ∈ s.threads)
    (hpending : ∀ snapshot, s.threads[n]? ≠ some (.dispatch k (.done snapshot)))
    (ht : Reach Registry.step onceRemoved s t) : Sound t ∧ Thread.remove id (.done true) ∈ t.threads ∧
      ∀ pc, t.threads[n]? = some (.dispatch k pc) → pc.Misses id := by
  induction ht with
  | refl =>
    refine ⟨h, hrem, fun pc hn => ?_⟩
    cases pc with
    | lookup | load => trivial
    | done snapshot => exact absurd hn (hpending snapshot)
  | tail _ hok hs ih =>
    obtain ⟨hsound, hrem, hmisses⟩ := ih
    refine ⟨sound_step hsound hok hs, returned_step hs rfl hrem, fun pc hn => ?_⟩
    rcases thread_back hs hn with ⟨o, hwas, hsame⟩ | ⟨-, hstarts⟩
    · cases hsame
      rcases step_thread hs hwas with hkept | ⟨v, th', hrun, -, hnow⟩
      · rw [hn] at hkept
        cases hkept
        exact hmisses _ hwas
      · obtain ⟨pc', hload, heq⟩ := Option.map_eq_some_iff.mp hrun
        cases heq
        rw [hn] at hnow
        cases hnow
        rename_i pc₀
        cases pc₀ with
        | lookup =>
          simp only [stepLoad] at hload
          split at hload <;> cases hload
          · trivial
          · exact nofun
        | load a =>
          cases hload
          exact fun x hx => hsound.removed_unlisted hrem hx
        | done => cases hload
    · cases hstarts
      trivial

/-- A removal that will return, or has returned, that the handler was registered. -/
def RemovePc.Finds (s : Registry κ) (id : Nat) : RemovePc κ → Prop
  | find => ∃ k, s.Present id k
  | unlock _ _ result | done result => result = true
  | _ => True

theorem Sound.finds_step (h : Sound s) {pc pc' : RemovePc κ} (hn : s.threads[n]? = some (.remove id pc))
    (hs : stepRemove s id pc = some (u, pc')) (hfinds : pc.Finds s id) : pc'.Finds u id := by
  have hsane := h.sane n _ hn
  cases pc with
  | find =>
    obtain ⟨k, e, he, hid, -⟩ := hfinds
    simp only [stepRemove] at hs
    split at hs
    · cases hs
      trivial
    · rename_i hnone
      rw [List.find?_eq_none] at hnone
      exact absurd hid (by simpa using hnone e he)
  | lock =>
    simp only [stepRemove] at hs
    split_ifs at hs
    cases hs
    trivial
  | take k a =>
    obtain ⟨-, ⟨e, he, hid, -⟩, -⟩ := hsane
    have hany : s.handlers.any (·.id = id) = true := List.any_eq_true.mpr ⟨e, he, by simpa using hid⟩
    simp only [stepRemove, hany, if_true] at hs
    cases hs
    trivial
  | check k a last =>
    cases hs
    split_ifs
    · trivial
    · rfl
  | unmap =>
    cases hs
    rfl
  | unlock =>
    cases hs
    exact hfinds
  | done => cases hs
  | slot | load | store =>
    cases hs
    trivial

theorem Sound.finds_reach (h : Sound s) {gate : Nat}
    (hreg : Thread.register k gate (.done id) ∈ s.threads) (hrem : ¬ s.Removing id)
    (ht : Reach Registry.step onceRemoved s t) : Sound t ∧ Thread.register k gate (.done id) ∈ t.threads ∧
      ∀ pc, Thread.remove id pc ∈ t.threads → pc.Finds t id := by
  induction ht with
  | refl => exact ⟨h, hreg, fun pc hpc => absurd ⟨pc, hpc⟩ hrem⟩
  | @tail v u l _ hok hs ih =>
    obtain ⟨hsound, hreg, hfinds⟩ := ih
    have hsound' := sound_step hsound hok hs
    refine ⟨hsound', returned_step hs rfl hreg, fun pc hpc => ?_⟩
    obtain ⟨m, hm⟩ := List.mem_iff_getElem?.mp hpc
    -- nobody else takes the handler out of the arena
    have hkeeps : ∀ k', v.Present id k' → Thread.remove id .find ∈ u.threads → u.Present id k' := by
      intro k' hpresent hfind
      refine ((hsound.tables_step hs).2 id k' hpresent).resolve_right ?_
      rintro ⟨k'', b, last, hload⟩
      obtain ⟨i, hi⟩ := List.mem_iff_getElem?.mp hfind
      obtain ⟨j, hj⟩ := List.mem_iff_getElem?.mp hload
      rw [hsound'.removers i j id _ _ hi hj, hj] at hi
      cases hi
    rcases thread_back hs hm with ⟨o, hwas, hsame⟩ | ⟨hnone, hstarts⟩
    · cases hsame
      rcases step_thread hs hwas with hkept | ⟨w, th', hrun, heq, hnow⟩
      · rw [hm] at hkept
        cases hkept
        have hwas' := hfinds pc (List.mem_of_getElem? hwas)
        cases pc with
        | find =>
          obtain ⟨k', hpresent⟩ := hwas'
          exact ⟨k', hkeeps k' hpresent hpc⟩
        | slot | lock | take | load | store | check | unmap => trivial
        | unlock | done => exact hwas'
      · obtain ⟨⟨w', pc'⟩, hstep, hpair⟩ := Option.map_eq_some_iff.mp hrun
        cases hpair
        rw [hm] at hnow
        cases hnow
        have hfinds' := hsound.finds_step hwas hstep (hfinds _ (List.mem_of_getElem? hwas))
        subst heq
        cases pc' <;> exact hfinds'
    · cases hstarts
      refine ⟨k, hkeeps k ((hsound.registered k gate _ id hreg rfl).2.resolve_right ?_) hpc⟩
      rintro ⟨pc, hother⟩
      obtain ⟨i, hi⟩ := List.mem_iff_getElem?.mp hother
      have hi' : ∃ pc', u.threads[i]? = some (.remove id pc') := by
        rcases step_thread hs hi with hkept | ⟨w, th', hrun, -, hnow⟩
        · exact ⟨pc, hkept⟩
        · have hsame := stepThread_same hrun
          cases hsame
          exact ⟨_, hnow⟩
      obtain ⟨pc', hi'⟩ := hi'
      rw [hsound'.removers m i id _ _ hm hi', hi] at hnone
      contradiction

/-! ## The calls together -/

/-- Registrations and removals are linearizable, and a dispatch that looks its slot up after a registration
has returned sees the handler until its removal. -/
theorem registration_linearizable (h : Reach Registry.step onceRemoved (Registry.new κ) s) :
    (s.Quiet → ∀ k, (∀ a, s.slots k = some a → (s.snapshot k a).map (·.id) = s.ids k) ∧
      (s.ids k).Pairwise (· < ·) ∧ (s.slots k ≠ none ↔ s.ids k ≠ [])) ∧
    ∀ t, Reach Registry.step onceRemoved s t → ∀ k id,
      (∀ gate, Thread.register k gate (.done id) ∈ s.threads →
        (∀ (n : Nat) snapshot, s.Fresh n → ¬ t.Removing id →
          t.threads[n]? = some (.dispatch k (.done snapshot)) → ∃ x ∈ snapshot, x.id = id) ∧
        (¬ s.Removing id → ∀ result, Thread.remove id (.done result) ∈ t.threads → result = true)) ∧
      (Thread.remove id (.done true) ∈ s.threads → ∀ (n : Nat) snapshot,
        (∀ earlier, s.threads[n]? ≠ some (.dispatch k (.done earlier))) →
          t.threads[n]? = some (.dispatch k (.done snapshot)) → ∀ x ∈ snapshot, x.id ≠ id) := by
  have hsound := sound_reach h
  refine ⟨fun hq k => ⟨fun a => hsound.quiet_listed hq, hsound.ids_increasing k, hsound.quiet_mapped hq⟩,
    fun t ht k id => ⟨fun gate hreg => ⟨fun n snapshot hfresh hrem hn => ?_, fun hrem result hpc => ?_⟩,
      fun hrem n snapshot hpending hn => ?_⟩⟩
  · obtain ⟨-, -, hsees⟩ := hsound.sees_reach hreg hfresh ht
    exact hsees hrem _ hn
  · obtain ⟨-, -, hfinds⟩ := hsound.finds_reach hreg hrem ht
    exact hfinds _ hpc
  · obtain ⟨-, -, hmisses⟩ := hsound.misses_reach hrem hpending ht
    exact hmisses _ hn

end

/-- A handler is registered, a dispatch looks the slot up, and the handler is removed with its slot; then
another handler of the event is registered, in a slot of its own. -/
def staleLookup : List (Registry.Label Nat) :=
  [Registry.Label.register 0 7] ++ List.replicate 7 (Registry.Label.run 0) ++
    [Registry.Label.dispatch 0, .run 1, .remove 0] ++ List.replicate 9 (Registry.Label.run 2) ++
    [Registry.Label.register 0 7] ++ List.replicate 7 (Registry.Label.run 3)

/-- The dispatch loads the old slot after the registration has returned, and the handler is not there. -/
theorem registered_unseen : ¬ ∀ s t : Registry Nat,
    Reach Registry.step onceRemoved (Registry.new Nat) s → Reach Registry.step onceRemoved s t →
      ∀ k gate id (n : Nat) snapshot, Thread.register k gate (.done id) ∈ s.threads → ¬ t.Removing id →
        (∀ earlier, s.threads[n]? ≠ some (.dispatch k (.done earlier))) →
          t.threads[n]? = some (.dispatch k (.done snapshot)) → ∃ x ∈ snapshot, x.id = id := by
  intro hall
  have hthreads : (runIf Registry.step onceRemoved (Registry.new Nat) staleLookup).map (·.threads) =
      some [.register 0 7 (.done 0), .dispatch 0 (.load 0), .remove 0 (.done true),
        .register 0 7 (.done 1)] := by decide
  obtain ⟨s, hs, hthreads⟩ := Option.map_eq_some_iff.mp hthreads
  have hsnapshot : (runIf Registry.step onceRemoved (Registry.new Nat) staleLookup).map
      (fun s => s.snapshot 0 0) = some [] := by decide
  rw [hs] at hsnapshot
  have hload : s.step (.run 1) =
      some { s with threads := s.threads.set 1 (.dispatch 0 (.done (s.snapshot 0 0))) } := by
    simp [Registry.step, hthreads, stepThread, stepLoad]
  have hempty : s.snapshot 0 0 = [] := by simpa using hsnapshot
  obtain ⟨x, hx, -⟩ := hall s _ (reach_of_runIf hs) (Reach.refl.tail (a := .run 1) trivial hload) 0 7 1 1 []
    (by simp [hthreads]) (by simp [Registry.Removing, hthreads]) (by simp [hthreads])
    (by simp [hthreads, hempty])
  cases hx

/-- Two handlers are registered and the first is removed; a dispatch comes after that, and sees the second. -/
def removedFirst : List (Registry.Label Nat) :=
  [Registry.Label.register 0 7, .register 0 7] ++ List.replicate 7 (Registry.Label.run 0) ++
    List.replicate 7 (Registry.Label.run 1) ++ [Registry.Label.remove 0] ++
    List.replicate 8 (Registry.Label.run 2) ++ [Registry.Label.dispatch 0]

theorem registration_linearizable_removedFirst : ∃ s t : Registry Nat, s.Quiet ∧ s.ids 0 = [1] ∧
    (s.snapshot 0 0).map (·.id) = s.ids 0 ∧ (s.slots 0 ≠ none ↔ s.ids 0 ≠ []) ∧
      ∃ snapshot, t.threads[3]? = some (.dispatch 0 (.done snapshot)) ∧
        (∃ x ∈ snapshot, x.id = 1) ∧ ∀ x ∈ snapshot, x.id ≠ 0 := by
  have hrun : (runIf Registry.step onceRemoved (Registry.new Nat) removedFirst).map
      (fun s => (s.threads, s.ids 0, s.slots 0)) =
      some ([.register 0 7 (.done 0), .register 0 7 (.done 1), .remove 0 (.done true), .dispatch 0 .lookup],
        [1], some 0) := by decide
  obtain ⟨s, hs, heq⟩ := Option.map_eq_some_iff.mp hrun
  obtain ⟨hthreads, hids, hslot⟩ := by simpa only [Prod.mk.injEq] using heq
  have hlookup : s.step (.run 3) =
      some { s with threads := s.threads.set 3 (.dispatch 0 (.load 0)) } := by
    simp [Registry.step, hthreads, stepThread, stepLoad, hslot]
  generalize hu : ({ s with threads := s.threads.set 3 (.dispatch 0 (.load 0)) } : Registry Nat) = u
    at hlookup
  have hthreads' : u.threads = s.threads.set 3 (.dispatch 0 (.load 0)) := by rw [← hu]
  have hload : u.step (.run 3) =
      some { u with threads := u.threads.set 3 (.dispatch 0 (.done (u.snapshot 0 0))) } := by
    simp [Registry.step, hthreads', hthreads, stepThread, stepLoad]
  generalize ht : ({ u with threads := u.threads.set 3 (.dispatch 0 (.done (u.snapshot 0 0))) } :
    Registry Nat) = t at hload
  have hthreads'' : t.threads = u.threads.set 3 (.dispatch 0 (.done (u.snapshot 0 0))) := by rw [← ht]
  have hreach : Reach Registry.step onceRemoved s t :=
    (Reach.refl.tail (a := .run 3) trivial hlookup).tail (a := .run 3) trivial hload
  obtain ⟨hquiet, hseen⟩ := registration_linearizable (reach_of_runIf hs)
  have hq : s.Quiet := by
    intro th hth
    simp only [hthreads, List.mem_cons, List.not_mem_nil, or_false] at hth
    rcases hth with rfl | rfl | rfl | rfl <;> exact id
  have hdone : t.threads[3]? = some (.dispatch 0 (.done (u.snapshot 0 0))) := by
    simp [hthreads'', hthreads', hthreads]
  obtain ⟨hlisted, -, hmapped⟩ := hquiet hq 0
  refine ⟨s, t, hq, hids, hlisted 0 hslot, hmapped, _, hdone, ?_, ?_⟩
  · refine ((hseen t hreach 0 1).1 7 (by simp [hthreads])).1 3 _ (fun k pc hn => ?_) ?_ hdone
    · simp only [hthreads] at hn
      cases hn
      rfl
    · simp [Registry.Removing, hthreads'', hthreads', hthreads]
  · exact (hseen t hreach 0 0).2 (by simp [hthreads]) 3 _ (by simp [hthreads]) hdone

end Cordis.EventBus
