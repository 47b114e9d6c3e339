import Cordis.Dispatch.Snapshot

/-!
# One reload during one dispatch

Gate `o` is that of the active generation, gate `n` that of the staged one, and one `cutover_from` runs
among the steps of a dispatch. A handler is due while it has been called or is still ahead of the
dispatch. What the cache says about the selector of the two gates decides which of the two generations
has to be due, and the two windows in which a cutover would lose a handler are left out by `Timely`.
-/

namespace Cordis.EventBus

open Machine

/-- What the loops of a dispatch still have to look at. -/
def Pc.todo : Pc → List SnapshotHandler
  | .loop rest => rest
  | .acquire handler rest => handler :: rest
  | .await _ rest => rest
  | .filter rest kept => kept ++ rest
  | _ => []

namespace Bus

variable (b : Bus)

def Called (h : SnapshotHandler) : Prop := ∃ c ∈ b.calls, c.handler = h

/-- The dispatch has not come to `h` yet. -/
def Ahead (h : SnapshotHandler) : Prop :=
  h ∈ b.pc.todo ∨ (∃ rest ∈ b.cascades, h ∈ rest) ∨ ∃ c ∈ b.calls, ∃ rest, c.next = some rest ∧ h ∈ rest

def Due (h : SnapshotHandler) : Prop := b.Called h ∨ b.Ahead h

/-- The dispatch has ended, and so has every call. -/
structure Settled : Prop where
  pc : b.pc = .finished
  cascades : b.cascades = []
  calls : ∀ c ∈ b.calls, ∃ outcome, c.phase = .released outcome

/-- No handler that has returned ended the dispatch, or kept its `Next`. -/
def Polite : Prop :=
  ∀ c ∈ b.calls, ∀ outcome, c.phase = .returned outcome ∨ c.phase = .released outcome →
    b.kind.ends outcome = false ∧ c.next = none

end Bus

variable {b b' : Bus} {h : SnapshotHandler} {o n : Nat} {old : List SnapshotHandler}

/-! ## What a step of the dispatch does to a handler -/

/-- The two ways to pass a handler over: another generation was selected, or there was no lease. -/
def Missed (b b' : Bus) (h : SnapshotHandler) : Prop :=
  (∃ a, b'.cache.lookup (b.gates.selector h.gate) = some a ∧ a ≠ b.gates.generation h.gate) ∨
    b.Ahead h ∧ b.gates.accepting h.gate = false

/-- What the steps of a dispatch that has begun do, and those that take and drop leases. -/
structure Moves (b b' : Bus) : Prop where
  gates : Gates.Undisturbed b.gates b'.gates
  gateCalls : b'.gateCalls = b.gateCalls
  slot : b'.slot = b.slot
  cache : ∀ k, b'.cache.lookup k = b.cache.lookup k ∨
    b.cache.lookup k = none ∧ b'.cache.lookup k = some (b.gates.active k)
  due : ∀ h, b.Due h → b'.Due h ∨ Missed b b' h
  ahead : ∀ h, b'.Ahead h → b.Ahead h
  polite : b.Polite → b'.Polite

theorem mem_eraseIdx_or {α : Type} {l : List α} {x : α} {k : Nat} (hx : x ∈ l) :
    x ∈ l.eraseIdx k ∨ l[k]? = some x := by
  obtain ⟨i, hi⟩ := List.mem_iff_getElem?.mp hx
  by_cases hik : i = k
  · subst hik
    exact .inr hi
  · exact .inl (List.mem_eraseIdx_iff_getElem?.mpr ⟨i, hik, hi⟩)

theorem mem_set_or {α : Type} {l : List α} {x y : α} {k : Nat} (hx : x ∈ l) :
    x ∈ l.set k y ∨ l[k]? = some x := by
  obtain ⟨i, hi⟩ := List.mem_iff_getElem?.mp hx
  by_cases hik : i = k
  · subst hik
    exact .inr hi
  · refine .inl (List.mem_iff_getElem?.mpr ⟨i, ?_⟩)
    rw [List.getElem?_set_ne (Ne.symm hik)]
    exact hi

theorem moves_of_pc (hgates : Gates.Undisturbed b.gates b'.gates) (hgateCalls : b'.gateCalls = b.gateCalls)
    (hslot : b'.slot = b.slot) (hkind : b'.kind = b.kind) (hcalls : b'.calls = b.calls)
    (hcascades : b'.cascades = b.cascades)
    (hcache : ∀ k, b'.cache.lookup k = b.cache.lookup k ∨
      b.cache.lookup k = none ∧ b'.cache.lookup k = some (b.gates.active k))
    (hdue : ∀ h ∈ b.pc.todo, h ∈ b'.pc.todo ∨ Missed b b' h)
    (hahead : ∀ h ∈ b'.pc.todo, h ∈ b.pc.todo) : Moves b b' := by
  refine ⟨hgates, hgateCalls, hslot, hcache, fun h hh => ?_, fun h hh => ?_, fun hpolite => ?_⟩
  · rcases hh with ⟨c, hc, rfl⟩ | hh | hh | hh
    · exact .inl (.inl ⟨c, hcalls ▸ hc, rfl⟩)
    · exact (hdue h hh).imp (fun hin => .inr (.inl hin)) id
    · exact .inl (.inr (.inr (.inl (hcascades ▸ hh))))
    · exact .inl (.inr (.inr (.inr (hcalls ▸ hh))))
  · rcases hh with hh | hh | hh
    · exact .inl (hahead h hh)
    · exact .inr (.inl (hcascades ▸ hh))
    · exact .inr (.inr (hcalls ▸ hh))
  · intro c hc
    rw [hkind]
    exact hpolite c (hcalls ▸ hc)

theorem polite_admitted (gates : Gates) {handler : SnapshotHandler} {next : Option (List SnapshotHandler)}
    (hpolite : b.Polite) : (b.admitted gates handler next).Polite := by
  intro c hc outcome hphase
  rcases List.mem_append.mp hc with hold | hnew
  · exact hpolite c hold outcome hphase
  · rw [List.mem_singleton] at hnew
    subst hnew
    rcases hphase with hphase | hphase <;> cases hphase

theorem stepDispatch_moves (hstart : b.pc ≠ .start) (hpolite : b.Polite)
    (hs : stepDispatch b = some b') : Moves b b' := by
  unfold stepDispatch at hs
  split at hs
  · rename_i hpc
    exact absurd hpc hstart
  · rename_i hpc
    cases hs
    refine moves_of_pc (.refl _) rfl rfl rfl rfl rfl (fun _ => .inl rfl) ?_ ?_
    · simp [hpc, Pc.todo]
    · intro h hh
      dsimp only at hh
      split_ifs at hh <;> simp [Pc.todo] at hh
  · rename_i handler rest hpc
    cases hs
    refine moves_of_pc (.refl _) rfl rfl rfl rfl rfl (VisibilityCache.lookup_visible_cases _ _ _) ?_ ?_
    · intro h hh
      rw [hpc] at hh
      cases hvisible : (b.cache.visible b.gates handler.gate).2 with
      | true => exact .inl hh
      | false =>
        rcases List.mem_cons.mp hh with rfl | hin
        · exact .inr (.inl (VisibilityCache.lookup_of_invisible hvisible))
        · exact .inl hin
    · intro h hh
      rw [hpc]
      dsimp only at hh
      split_ifs at hh with hvisible
      · exact hh
      · exact List.mem_cons_of_mem _ hh
  · rename_i handler rest hpc
    split at hs
    · rename_i hnone
      cases hs
      refine moves_of_pc (.refl _) rfl rfl rfl rfl rfl (fun _ => .inl rfl) ?_ ?_
      · intro h hh
        rw [hpc] at hh
        rcases List.mem_cons.mp hh with rfl | hin
        · refine .inr (.inr ⟨.inl ?_, Gates.not_accepting_of_tryAcquire hnone⟩)
          rw [hpc]
          exact hh
        · exact .inl hin
      · intro h hh
        rw [hpc]
        exact List.mem_cons_of_mem _ hh
    · rename_i gates hgates
      cases hs
      have htodo : ∀ h, h ∈ (if b.kind = .parallel then Pc.loop rest else .await b.calls.length rest).todo ↔
          h ∈ rest := by
        intro h
        split_ifs <;> rfl
      refine ⟨Gates.acquired_undisturbed hgates, rfl, rfl, fun _ => .inl rfl, fun h hh => .inl ?_,
        fun h hh => ?_, polite_admitted gates⟩
      · rcases hh with ⟨c, hc, rfl⟩ | hh | hh | ⟨c, hc, hh⟩
        · exact .inl ⟨c, List.mem_append_left _ hc, rfl⟩
        · rw [hpc] at hh
          rcases List.mem_cons.mp hh with rfl | hin
          · exact .inl ⟨_, List.mem_append_right _ (List.mem_singleton_self _), rfl⟩
          · exact .inr (.inl ((htodo h).mpr hin))
        · exact .inr (.inr (.inl hh))
        · exact .inr (.inr (.inr ⟨c, List.mem_append_left _ hc, hh⟩))
      · rcases hh with hh | hh | ⟨c, hc, rest', hnext, hin⟩
        · refine .inl ?_
          rw [hpc]
          exact List.mem_cons_of_mem _ ((htodo h).mp hh)
        · exact .inr (.inl hh)
        · rcases List.mem_append.mp hc with hold | hnew
          · exact .inr (.inr ⟨c, hold, rest', hnext, hin⟩)
          · rw [List.mem_singleton] at hnew
            subst hnew
            cases hnext
  · rename_i m rest hpc
    split at hs <;> cases hs
    rename_i outcome hphase
    obtain ⟨c, hc, hreleased⟩ := Option.map_eq_some_iff.mp hphase
    have hends := (hpolite c (List.mem_of_getElem? hc) outcome (.inr hreleased)).1
    refine moves_of_pc (.refl _) rfl rfl rfl rfl rfl (fun _ => .inl rfl) (fun h hh => .inl ?_)
      fun h hh => ?_
    · simpa [hends, hpc, Pc.todo] using hh
    · simpa [hends, hpc, Pc.todo] using hh
  · rename_i hpc
    split_ifs at hs
    cases hs
    refine moves_of_pc (.refl _) rfl rfl rfl rfl rfl (fun _ => .inl rfl) ?_ ?_ <;> simp [hpc, Pc.todo]
  · rename_i kept hpc
    cases hs
    refine ⟨.refl _, rfl, rfl, fun _ => .inl rfl, fun h hh => .inl ?_, fun h hh => ?_, id⟩
    · rcases hh with hh | hh | ⟨rest, hrest, hin⟩ | hh
      · exact .inl hh
      · rw [hpc] at hh
        refine .inr (.inr (.inl ⟨kept, List.mem_append_right _ (List.mem_singleton_self _), ?_⟩))
        simpa [Pc.todo] using hh
      · exact .inr (.inr (.inl ⟨rest, List.mem_append_left _ hrest, hin⟩))
      · exact .inr (.inr (.inr hh))
    · rcases hh with hh | ⟨rest, hrest, hin⟩ | hh
      · simp [Pc.todo] at hh
      · rcases List.mem_append.mp hrest with hold | hnew
        · exact .inr (.inl ⟨rest, hold, hin⟩)
        · rw [List.mem_singleton] at hnew
          subst hnew
          refine .inl ?_
          rw [hpc]
          simpa [Pc.todo] using hin
      · exact .inr (.inr hh)
  · rename_i handler rest kept hpc
    cases hs
    refine moves_of_pc (.refl _) rfl rfl rfl rfl rfl (VisibilityCache.lookup_visible_cases _ _ _) ?_ ?_
    · intro h hh
      rw [hpc] at hh
      cases hvisible : (b.cache.visible b.gates handler.gate).2 with
      | true =>
        refine .inl ?_
        simpa [Pc.todo] using hh
      | false =>
        rcases List.mem_append.mp hh with hin | hin
        · exact .inl (List.mem_append_left _ hin)
        · rcases List.mem_cons.mp hin with rfl | hin
          · exact .inr (.inl (VisibilityCache.lookup_of_invisible hvisible))
          · exact .inl (List.mem_append_right _ hin)
    · intro h hh
      rw [hpc]
      dsimp only at hh
      split_ifs at hh
      · simpa [Pc.todo] using hh
      · rcases List.mem_append.mp hh with hin | hin
        · exact List.mem_append_left _ hin
        · exact List.mem_append_right _ (List.mem_cons_of_mem _ hin)
  · rename_i hpc
    split at hs
    · split_ifs at hs
      cases hs
      refine moves_of_pc (.refl _) rfl rfl rfl rfl rfl (fun _ => .inl rfl) ?_ ?_ <;> simp [hpc, Pc.todo]
    · split_ifs at hs
      cases hs
      refine moves_of_pc (.refl _) rfl rfl rfl rfl rfl (fun _ => .inl rfl) ?_ ?_ <;> simp [hpc, Pc.todo]
  · cases hs

theorem stepCascade_moves {k : Nat} (hs : stepCascade b k = some b') : Moves b b' := by
  unfold stepCascade at hs
  split at hs
  · cases hs
  · rename_i hk
    cases hs
    refine ⟨.refl _, rfl, rfl, fun _ => .inl rfl, fun h hh => .inl ?_, fun h hh => ?_, id⟩
    · rcases hh with hh | hh | ⟨rest, hrest, hin⟩ | hh
      · exact .inl hh
      · exact .inr (.inl hh)
      · rcases mem_eraseIdx_or (k := k) hrest with hstays | hgone
        · exact .inr (.inr (.inl ⟨rest, hstays, hin⟩))
        · rw [hk] at hgone
          cases hgone
          cases hin
      · exact .inr (.inr (.inr hh))
    · rcases hh with hh | ⟨rest, hrest, hin⟩ | hh
      · exact .inl hh
      · exact .inr (.inl ⟨rest, List.mem_of_mem_eraseIdx hrest, hin⟩)
      · exact .inr (.inr hh)
  · rename_i handler rest hk
    have hthere : handler :: rest ∈ b.cascades := List.mem_of_getElem? hk
    split at hs
    · rename_i hnone
      cases hs
      refine ⟨.refl _, rfl, rfl, fun _ => .inl rfl, fun h hh => ?_, fun h hh => ?_, id⟩
      · rcases hh with hh | hh | ⟨rest', hrest, hin⟩ | hh
        · exact .inl (.inl hh)
        · exact .inl (.inr (.inl hh))
        · rcases mem_set_or (k := k) (y := rest) hrest with hstays | hgone
          · exact .inl (.inr (.inr (.inl ⟨rest', hstays, hin⟩)))
          · rw [hk] at hgone
            cases hgone
            rcases List.mem_cons.mp hin with rfl | hin
            · exact .inr (.inr ⟨.inr (.inl ⟨_, hthere, List.mem_cons_self ..⟩),
                Gates.not_accepting_of_tryAcquire hnone⟩)
            · obtain ⟨hlt, -⟩ := List.getElem?_eq_some_iff.mp hk
              exact .inl (.inr (.inr (.inl ⟨rest, List.mem_set hlt _, hin⟩)))
        · exact .inl (.inr (.inr (.inr hh)))
      · rcases hh with hh | ⟨rest', hrest, hin⟩ | hh
        · exact .inl hh
        · rcases List.mem_or_eq_of_mem_set hrest with hold | rfl
          · exact .inr (.inl ⟨rest', hold, hin⟩)
          · exact .inr (.inl ⟨_, hthere, List.mem_cons_of_mem _ hin⟩)
        · exact .inr (.inr hh)
    · rename_i gates hgates
      cases hs
      refine ⟨Gates.acquired_undisturbed hgates, rfl, rfl, fun _ => .inl rfl, fun h hh => .inl ?_,
        fun h hh => ?_, polite_admitted gates⟩
      · rcases hh with ⟨c, hc, rfl⟩ | hh | ⟨rest', hrest, hin⟩ | ⟨c, hc, hh⟩
        · exact .inl ⟨c, List.mem_append_left _ hc, rfl⟩
        · exact .inr (.inl hh)
        · rcases mem_eraseIdx_or (k := k) hrest with hstays | hgone
          · exact .inr (.inr (.inl ⟨rest', hstays, hin⟩))
          · rw [hk] at hgone
            cases hgone
            have hnew : (⟨handler, .admitted, some rest⟩ : Call) ∈ (b.admitted gates handler (some rest)).calls :=
              List.mem_append_right _ (List.mem_singleton_self _)
            rcases List.mem_cons.mp hin with rfl | hin
            · exact .inl ⟨_, hnew, rfl⟩
            · exact .inr (.inr (.inr ⟨_, hnew, rest, rfl, hin⟩))
        · exact .inr (.inr (.inr ⟨c, List.mem_append_left _ hc, hh⟩))
      · rcases hh with hh | ⟨rest', hrest, hin⟩ | ⟨c, hc, rest', hnext, hin⟩
        · exact .inl hh
        · exact .inr (.inl ⟨rest', List.mem_of_mem_eraseIdx hrest, hin⟩)
        · rcases List.mem_append.mp hc with hold | hnew
          · exact .inr (.inr ⟨c, hold, rest', hnext, hin⟩)
          · rw [List.mem_singleton] at hnew
            subst hnew
            cases hnext
            exact .inr (.inl ⟨_, hthere, List.mem_cons_of_mem _ hin⟩)

theorem set_moves {m : Nat} {c : Call} (c' : Call) (hm : b.calls[m]? = some c)
    (hhandler : c'.handler = c.handler) (hnext : c'.next = c.next)
    (hpolite : b.Polite → ∀ outcome, c'.phase = .returned outcome ∨ c'.phase = .released outcome →
      b.kind.ends outcome = false ∧ c'.next = none)
    {gates : Gates} (hgates : Gates.Undisturbed b.gates gates) :
    Moves b { b with gates := gates, calls := b.calls.set m c' } := by
  have hthere : c ∈ b.calls := List.mem_of_getElem? hm
  have hnew : c' ∈ b.calls.set m c' := List.mem_set (List.getElem?_eq_some_iff.mp hm).1 _
  refine ⟨hgates, rfl, rfl, fun _ => .inl rfl, fun h hh => .inl ?_, fun h hh => ?_, fun hp d hd => ?_⟩
  · rcases hh with ⟨d, hd, rfl⟩ | hh | hh | ⟨d, hd, rest, hrest, hin⟩
    · rcases mem_set_or (k := m) (y := c') hd with hstays | hgone
      · exact .inl ⟨d, hstays, rfl⟩
      · rw [hm] at hgone
        cases hgone
        exact .inl ⟨c', hnew, hhandler⟩
    · exact .inr (.inl hh)
    · exact .inr (.inr (.inl hh))
    · rcases mem_set_or (k := m) (y := c') hd with hstays | hgone
      · exact .inr (.inr (.inr ⟨d, hstays, rest, hrest, hin⟩))
      · rw [hm] at hgone
        cases hgone
        exact .inr (.inr (.inr ⟨c', hnew, rest, hnext.trans hrest, hin⟩))
  · rcases hh with hh | hh | ⟨d, hd, rest, hrest, hin⟩
    · exact .inl hh
    · exact .inr (.inl hh)
    · rcases List.mem_or_eq_of_mem_set hd with hold | rfl
      · exact .inr (.inr ⟨d, hold, rest, hrest, hin⟩)
      · exact .inr (.inr ⟨c, hthere, rest, hnext.symm.trans hrest, hin⟩)
  · rcases List.mem_or_eq_of_mem_set hd with hold | rfl
    · exact hp d hold
    · exact hpolite hp

theorem stepCall_moves {m : Nat} {c : Call} {s : CallStep} (hm : b.calls[m]? = some c)
    (hok : ∀ outcome, s = .finish outcome → b.kind.ends outcome = false ∧ c.next = none)
    (hs : stepCall b m c s = some b') : Moves b b' := by
  have hthere : c ∈ b.calls := List.mem_of_getElem? hm
  cases s with
  | begin =>
    simp only [stepCall] at hs
    split_ifs at hs
    cases hs
    exact set_moves { c with phase := .running } hm rfl rfl (fun _ _ h => by simp at h) (.refl _)
  | next =>
    simp only [stepCall] at hs
    split at hs
    · cases hs
    · cases hs
    · rename_i rest hnext hphase
      cases hs
      have hnew : ({ c with next := none } : Call) ∈ b.calls.set m { c with next := none } :=
        List.mem_set (List.getElem?_eq_some_iff.mp hm).1 _
      refine ⟨.refl _, rfl, rfl, fun _ => .inl rfl, fun h hh => .inl ?_, fun h hh => ?_, fun hp d hd => ?_⟩
      · rcases hh with ⟨d, hd, rfl⟩ | hh | ⟨rest', hrest, hin⟩ | ⟨d, hd, rest', hrest, hin⟩
        · rcases mem_set_or (k := m) (y := { c with next := none }) hd with hstays | hgone
          · exact .inl ⟨d, hstays, rfl⟩
          · rw [hm] at hgone
            cases hgone
            exact .inl ⟨_, hnew, rfl⟩
        · exact .inr (.inl hh)
        · exact .inr (.inr (.inl ⟨rest', List.mem_append_left _ hrest, hin⟩))
        · rcases mem_set_or (k := m) (y := { c with next := none }) hd with hstays | hgone
          · exact .inr (.inr (.inr ⟨d, hstays, rest', hrest, hin⟩))
          · rw [hm] at hgone
            cases hgone
            rw [hnext] at hrest
            cases hrest
            exact .inr (.inr (.inl ⟨rest, List.mem_append_right _ (List.mem_singleton_self _), hin⟩))
      · rcases hh with hh | ⟨rest', hrest, hin⟩ | ⟨d, hd, rest', hrest, hin⟩
        · exact .inl hh
        · rcases List.mem_append.mp hrest with hold | hlast
          · exact .inr (.inl ⟨rest', hold, hin⟩)
          · rw [List.mem_singleton] at hlast
            subst hlast
            exact .inr (.inr ⟨c, hthere, rest', hnext, hin⟩)
        · rcases List.mem_or_eq_of_mem_set hd with hold | rfl
          · exact .inr (.inr ⟨d, hold, rest', hrest, hin⟩)
          · cases hrest
      · rcases List.mem_or_eq_of_mem_set hd with hold | rfl
        · exact hp d hold
        · intro outcome hreturned
          exact ⟨(hp c hthere outcome hreturned).1, rfl⟩
  | finish outcome =>
    simp only [stepCall] at hs
    split_ifs at hs
    cases hs
    refine set_moves { c with phase := .returned outcome } hm rfl rfl (fun _ oc h => ?_) (.refl _)
    rcases h with h | h <;> cases h
    exact hok outcome rfl
  | release =>
    simp only [stepCall] at hs
    split at hs
    · rename_i outcome hphase
      obtain ⟨gates, hgates, rfl⟩ := Option.map_eq_some_iff.mp hs
      refine set_moves { c with phase := .released outcome } hm rfl rfl (fun hp oc h => ?_)
        (Gates.dropped_undisturbed hgates)
      rcases h with h | h <;> cases h
      exact hp c hthere outcome (.inl hphase)
    · cases hs

/-! ## The cutover -/

/-- How far the one `cutover_from` is. -/
inductive Cutover (o n : Nat) (b : Bus) : Prop
  | before (h : b.gateCalls = [] ∨ b.gateCalls = [(n, .cutoverFrom o, .begin)] ∨
        b.gateCalls = [(n, .cutoverFrom o, .switch)])
      (active : b.gates.active (b.gates.selector n) = b.gates.generation o)
      (accepting : b.gates.accepting o = true)
  | switched (h : b.gateCalls = [(n, .cutoverFrom o, .retire)] ∨ b.gateCalls = [(n, .cutoverFrom o, .drain)])
      (active : b.gates.active (b.gates.selector n) = b.gates.generation n)
      (accepting : b.gates.accepting o = true)
  | done (h : b.gateCalls = [(n, .cutoverFrom o, .done true)])
      (active : b.gates.active (b.gates.selector n) = b.gates.generation n)
      (accepting : b.gates.accepting o = false)

/-- What the dispatch still owes, by what its cache says about the selector. -/
inductive Tracked (o n : Nat) (old : List SnapshotHandler) (b : Bus) : Prop
  | unseen (look : b.cache.lookup (b.gates.selector n) = none)
      (olds : b.gates.active (b.gates.selector n) = b.gates.generation o →
        ∀ h ∈ old, h.gate = o → b.Due h)
      (news : b.gates.active (b.gates.selector n) = b.gates.generation n →
        ∀ h ∈ b.slot.getD [], h.gate = n → b.Due h)
  | old (look : b.cache.lookup (b.gates.selector n) = some (b.gates.generation o))
      (olds : ∀ h ∈ old, h.gate = o → b.Due h)
      (ahead : b.gates.accepting o = false → ∀ h, h.gate = o → ¬ b.Ahead h)
  | new (look : b.cache.lookup (b.gates.selector n) = some (b.gates.generation n))
      (active : b.gates.active (b.gates.selector n) = b.gates.generation n)
      (news : ∀ h ∈ b.slot.getD [], h.gate = n → b.Due h)

/-- The dispatch has not begun. -/
structure Unbegun (b : Bus) : Prop where
  pc : b.pc = .start
  cache : b.cache = []
  calls : b.calls = []
  cascades : b.cascades = []

/-- The invariant of a dispatch and a cutover. -/
structure Handover (o n : Nat) (old : List SnapshotHandler) (b : Bus) : Prop where
  selector : b.gates.selector o = b.gates.selector n
  generation : b.gates.generation o ≠ b.gates.generation n
  accepting : b.gates.accepting n = true
  retired : (b.gates.gate n).retired = false
  cutover : Cutover o n b
  slot : b.gates.accepting o = true → ∀ h ∈ old, h.gate = o → h ∈ b.slot.getD []
  polite : b.Polite
  progress : Unbegun b ∨ b.pc ≠ .start ∧ Tracked o n old b

/-- Of the lifecycle only the cutover runs: staged handlers are registered before it, the old ones are
removed after it, and no handler ends the dispatch early. -/
def Reloads (o n : Nat) (b : Bus) : Label → Prop
  | .register handler => handler.gate = n → b.gateCalls = []
  | .remove i => ∀ h ∈ b.slot.getD [], h.id = i →
      h.gate ≠ n ∧ (h.gate = o → b.gateCalls = [(n, .cutoverFrom o, .done true)])
  | .gateOp g op => g = n ∧ op = .cutoverFrom o ∧ b.gateCalls = []
  | .call m (.finish outcome) => b.kind.ends outcome = false ∧ ∀ c, b.calls[m]? = some c → c.next = none
  | _ => True

/-- The selector does not switch between the load of a snapshot without some staged handler, or with
one that was passed over, and the first look at it; and draining does not begin while an old handler
waits for its lease in a dispatch that has selected the old generation. -/
def Timely (o n : Nat) (b : Bus) : Label → Prop
  | .gate _ =>
    (b.gateCalls = [(n, .cutoverFrom o, .switch)] → b.pc ≠ .start →
      b.cache.lookup (b.gates.selector n) = none → ∀ h ∈ b.slot.getD [], h.gate = n → b.Ahead h) ∧
    (b.gateCalls = [(n, .cutoverFrom o, .drain)] →
      b.cache.lookup (b.gates.selector n) = some (b.gates.generation o) → ∀ h, h.gate = o → ¬ b.Ahead h)
  | _ => True

theorem Cutover.mono (h : Cutover o n b) (hgates : Gates.Undisturbed b.gates b'.gates)
    (hcalls : b'.gateCalls = b.gateCalls) : Cutover o n b' := by
  cases h with
  | before h active accepting =>
    refine .before (hcalls.symm ▸ h) ?_ ?_
    · rw [hgates.selector, hgates.active, hgates.generation]
      exact active
    · rw [hgates.accepting]
      exact accepting
  | switched h active accepting =>
    refine .switched (hcalls.symm ▸ h) ?_ ?_
    · rw [hgates.selector, hgates.active, hgates.generation]
      exact active
    · rw [hgates.accepting]
      exact accepting
  | done h active accepting =>
    refine .done (hcalls.trans h) ?_ ?_
    · rw [hgates.selector, hgates.active, hgates.generation]
      exact active
    · rw [hgates.accepting]
      exact accepting

theorem Cutover.active_cases (h : Cutover o n b) :
    b.gates.active (b.gates.selector n) = b.gates.generation o ∧ b.gates.accepting o = true ∨
      b.gates.active (b.gates.selector n) = b.gates.generation n := by
  cases h with
  | before _ active accepting => exact .inl ⟨active, accepting⟩
  | switched _ active _ => exact .inr active
  | done _ active _ => exact .inr active

variable (hh : Handover o n old b)

include hh in
theorem Handover.not_missed_old (hm : Missed b b' h) (hgate : h.gate = o)
    (hlook : ∀ a, b'.cache.lookup (b.gates.selector n) = some a → a = b.gates.generation o)
    (hahead : b.gates.accepting o = false → ¬ b.Ahead h) : False := by
  subst hgate
  rcases hm with ⟨a, ha, hne⟩ | ⟨hin, haccepting⟩
  · rw [hh.selector] at ha
    exact hne (hlook a ha)
  · exact hahead haccepting hin

include hh in
theorem Handover.not_missed_new (hm : Missed b b' h) (hgate : h.gate = n)
    (hlook : ∀ a, b'.cache.lookup (b.gates.selector n) = some a → a = b.gates.generation n) : False := by
  subst hgate
  rcases hm with ⟨a, ha, hne⟩ | ⟨-, haccepting⟩
  · exact hne (hlook a ha)
  · rw [hh.accepting] at haccepting
    cases haccepting

include hh in
theorem Handover.tracked_moves (ht : Tracked o n old b) (hm : Moves b b') : Tracked o n old b' := by
  have hsel := hm.gates.selector
  have hgen := hm.gates.generation
  have hact := hm.gates.active
  have hkeeps : ∀ h, b.Due h → (Missed b b' h → False) → b'.Due h := fun h hdue hnot =>
    (hm.due h hdue).resolve_right hnot
  cases ht with
  | unseen look olds news =>
    rcases hm.cache (b.gates.selector n) with hsame | ⟨-, hfills⟩
    · rw [look] at hsame
      refine .unseen (hsel ▸ hsame) ?_ ?_
      · rw [hsel, hact, hgen]
        intro hactive h hold hgate
        have haccepting : b.gates.accepting o = true := by
          rcases hh.cutover.active_cases with ⟨-, hopen⟩ | hnew
          · exact hopen
          · exact absurd (hactive.symm.trans hnew) hh.generation
        refine hkeeps h (olds hactive h hold hgate) fun hmiss => ?_
        refine hh.not_missed_old hmiss hgate (by simp [hsame]) ?_
        rw [haccepting]
        exact fun hc => absurd hc (by simp)
      · rw [hsel, hact, hgen, hm.slot]
        intro hactive h hin hgate
        exact hkeeps h (news hactive h hin hgate) fun hmiss =>
          hh.not_missed_new hmiss hgate (by simp [hsame])
    · rcases hh.cutover.active_cases with ⟨hactive, haccepting⟩ | hactive
      · rw [hactive] at hfills
        refine .old (by rw [hsel, hgen]; exact hfills) ?_ ?_
        · intro h hold hgate
          refine hkeeps h (olds hactive h hold hgate) fun hmiss => ?_
          refine hh.not_missed_old hmiss hgate (by simp [hfills]) ?_
          rw [haccepting]
          exact fun hc => absurd hc (by simp)
        · rw [hm.gates.accepting, haccepting]
          exact fun hc => absurd hc (by simp)
      · rw [hactive] at hfills
        refine .new (by rw [hsel, hgen]; exact hfills) (by rw [hsel, hact, hgen]; exact hactive) ?_
        rw [hm.slot]
        intro h hin hgate
        exact hkeeps h (news hactive h hin hgate) fun hmiss =>
          hh.not_missed_new hmiss hgate (by simp [hfills])
  | old look olds ahead =>
    have hlook : b'.cache.lookup (b.gates.selector n) = some (b.gates.generation o) := by
      rcases hm.cache (b.gates.selector n) with hsame | ⟨hnone, -⟩
      · rw [hsame]
        exact look
      · rw [look] at hnone
        cases hnone
    refine .old (by rw [hsel, hgen]; exact hlook) ?_ ?_
    · intro h hold hgate
      exact hkeeps h (olds h hold hgate) fun hmiss =>
        hh.not_missed_old hmiss hgate (by simp [hlook]) fun hclosed => ahead hclosed h hgate
    · rw [hm.gates.accepting]
      exact fun hclosed h hgate hin => ahead hclosed h hgate (hm.ahead h hin)
  | new look active news =>
    have hlook : b'.cache.lookup (b.gates.selector n) = some (b.gates.generation n) := by
      rcases hm.cache (b.gates.selector n) with hsame | ⟨hnone, -⟩
      · rw [hsame]
        exact look
      · rw [look] at hnone
        cases hnone
    refine .new (by rw [hsel, hgen]; exact hlook) (by rw [hsel, hact, hgen]; exact active) ?_
    rw [hm.slot]
    intro h hin hgate
    exact hkeeps h (news h hin hgate) fun hmiss => hh.not_missed_new hmiss hgate (by simp [hlook])

include hh in
theorem Handover.moves (hm : Moves b b')
    (hprogress : Unbegun b ∧ Unbegun b' ∨ b.pc ≠ .start ∧ b'.pc ≠ .start) : Handover o n old b' where
  selector := by
    rw [hm.gates.selector]
    exact hh.selector
  generation := by
    rw [hm.gates.generation]
    exact hh.generation
  accepting := by
    rw [hm.gates.accepting]
    exact hh.accepting
  retired := by
    rw [hm.gates.retired]
    exact hh.retired
  cutover := hh.cutover.mono hm.gates hm.gateCalls
  slot := by
    rw [hm.gates.accepting, hm.slot]
    exact hh.slot
  polite := hm.polite hh.polite
  progress := by
    rcases hprogress with ⟨-, hun⟩ | ⟨hbegun, hbegun'⟩
    · exact .inl hun
    · rcases hh.progress with hun | ⟨-, ht⟩
      · exact absurd hun.pc hbegun
      · exact .inr ⟨hbegun', hh.tracked_moves ht hm⟩

include hh in
theorem Handover.begins (hun : Unbegun b) (hs : stepDispatch b = some b') : Handover o n old b' := by
  obtain ⟨hpc, hcache, hcalls, hcascades⟩ := hun
  have hnext : b'.pc ≠ .start ∧ (∀ h ∈ b.slot.getD [], h ∈ b'.pc.todo) ∧ b' = { b with pc := b'.pc } := by
    unfold stepDispatch at hs
    rw [hpc] at hs
    dsimp only at hs
    split at hs
    · rename_i hslot
      cases hs
      exact ⟨by simp, by simp [hslot], rfl⟩
    · rename_i snapshot hslot
      cases hs
      refine ⟨?_, ?_, rfl⟩
      · dsimp only
        split_ifs <;> simp
      · intro h hin
        rw [hslot] at hin
        dsimp only
        split_ifs
        · exact hin
        · exact hin
  obtain ⟨hstart, hall, heq⟩ := hnext
  generalize b'.pc = pc at hstart hall heq
  subst heq
  refine ⟨hh.selector, hh.generation, hh.accepting, hh.retired, ?_, hh.slot, hh.polite, .inr ⟨hstart, ?_⟩⟩
  · exact hh.cutover.mono (.refl _) rfl
  · refine .unseen (by simp [hcache]) ?_ ?_
    · intro hactive h hold hgate
      have haccepting : b.gates.accepting o = true := by
        rcases hh.cutover.active_cases with ⟨-, hopen⟩ | hnew
        · exact hopen
        · exact absurd (hactive.symm.trans hnew) hh.generation
      exact .inr (.inl (hall h (hh.slot haccepting h hold hgate)))
    · intro _ h hin _
      exact .inr (.inl (hall h hin))

theorem stepDispatch_begun (hstart : b.pc ≠ .start) (hs : stepDispatch b = some b') : b'.pc ≠ .start := by
  unfold stepDispatch at hs
  split at hs
  · rename_i hpc
    exact absurd hpc hstart
  · cases hs
    dsimp only
    split_ifs <;> simp
  · cases hs
    dsimp only
    split_ifs <;> simp
  · split at hs <;> cases hs
    · simp
    · dsimp only
      split_ifs <;> simp
  · split at hs <;> cases hs
    dsimp only
    split_ifs <;> simp
  · split_ifs at hs
    cases hs
    simp
  · cases hs
    simp
  · cases hs
    simp
  · split at hs <;> split_ifs at hs <;> cases hs <;> simp
  · cases hs

include hh in
theorem Handover.slot_changes {slot : Option (List SnapshotHandler)}
    (holds : b.gates.accepting o = true → ∀ h ∈ old, h.gate = o → h ∈ b.slot.getD [] → h ∈ slot.getD [])
    (hnews : b.gates.active (b.gates.selector n) = b.gates.generation n →
      ∀ h ∈ slot.getD [], h.gate = n → h ∈ b.slot.getD []) :
    Handover o n old { b with slot := slot } := by
  refine ⟨hh.selector, hh.generation, hh.accepting, hh.retired, ?_, ?_, hh.polite, ?_⟩
  · exact hh.cutover.mono (.refl _) rfl
  · exact fun hopen h hold hgate => holds hopen h hold hgate (hh.slot hopen h hold hgate)
  · rcases hh.progress with ⟨hpc, hcache, hcalls, hcascades⟩ | ⟨hstart, ht⟩
    · exact .inl ⟨hpc, hcache, hcalls, hcascades⟩
    · refine .inr ⟨hstart, ?_⟩
      cases ht with
      | unseen look olds news =>
        exact .unseen look olds fun hactive h hin hgate => news hactive h (hnews hactive h hin hgate) hgate
      | old look olds ahead => exact .old look olds ahead
      | new look active news =>
        exact .new look active fun h hin hgate => news h (hnews active h hin hgate) hgate

include hh in
theorem Handover.switches {gates : Gates} {calls : List (Nat × GateOp × GatePc)}
    (hsame : Gates.Same b.gates gates) (haccepting : gates.accepting = b.gates.accepting)
    (hretired : (gates.gate n).retired = (b.gates.gate n).retired)
    (hcutover : Cutover o n { b with gates := gates, gateCalls := calls })
    (hactive : gates.active (b.gates.selector n) = b.gates.generation n)
    (hok : b.pc ≠ .start → b.cache.lookup (b.gates.selector n) = none →
      ∀ h ∈ b.slot.getD [], h.gate = n → b.Ahead h) :
    Handover o n old { b with gates := gates, gateCalls := calls } := by
  refine ⟨?_, ?_, ?_, ?_, hcutover, ?_, hh.polite, ?_⟩
  · dsimp only
    rw [hsame.selector]
    exact hh.selector
  · dsimp only
    rw [hsame.generation]
    exact hh.generation
  · dsimp only
    rw [haccepting]
    exact hh.accepting
  · exact hretired.trans hh.retired
  · dsimp only
    rw [haccepting]
    exact hh.slot
  · rcases hh.progress with ⟨hpc, hcache, hcalls, hcascades⟩ | ⟨hstart, ht⟩
    · exact .inl ⟨hpc, hcache, hcalls, hcascades⟩
    · refine .inr ⟨hstart, ?_⟩
      cases ht with
      | unseen look olds news =>
        refine .unseen (by dsimp only; rw [hsame.selector]; exact look) ?_ ?_
        · dsimp only
          rw [hsame.selector, hsame.generation, hactive]
          exact fun heq => absurd heq.symm hh.generation
        · exact fun _ h hin hgate => .inr (hok hstart look h hin hgate)
      | old look olds ahead =>
        refine .old (by dsimp only; rw [hsame.selector, hsame.generation]; exact look) olds ?_
        dsimp only
        rw [haccepting]
        exact ahead
      | new look active news =>
        refine .new (by dsimp only; rw [hsame.selector, hsame.generation]; exact look) ?_ news
        dsimp only
        rw [hsame.selector, hsame.generation]
        exact hactive

include hh in
theorem Handover.closes {gates : Gates} {calls : List (Nat × GateOp × GatePc)}
    (hsame : Gates.Same b.gates gates) (hactive : gates.active = b.gates.active)
    (haccepting : ∀ g, gates.accepting g = true → b.gates.accepting g = true)
    (hopen : gates.accepting n = true)
    (hretired : (gates.gate n).retired = (b.gates.gate n).retired)
    (hcutover : Cutover o n { b with gates := gates, gateCalls := calls })
    (hok : gates.accepting o = false → b.cache.lookup (b.gates.selector n) = some (b.gates.generation o) →
      ∀ h, h.gate = o → ¬ b.Ahead h) :
    Handover o n old { b with gates := gates, gateCalls := calls } := by
  refine ⟨?_, ?_, hopen, ?_, hcutover, ?_, hh.polite, ?_⟩
  · dsimp only
    rw [hsame.selector]
    exact hh.selector
  · dsimp only
    rw [hsame.generation]
    exact hh.generation
  · exact hretired.trans hh.retired
  · exact fun h => hh.slot (haccepting o h)
  · rcases hh.progress with ⟨hpc, hcache, hcalls, hcascades⟩ | ⟨hstart, ht⟩
    · exact .inl ⟨hpc, hcache, hcalls, hcascades⟩
    · refine .inr ⟨hstart, ?_⟩
      cases ht with
      | unseen look olds news =>
        refine .unseen (by dsimp only; rw [hsame.selector]; exact look) ?_ ?_
        · dsimp only
          rw [hsame.selector, hsame.generation, hactive]
          exact olds
        · dsimp only
          rw [hsame.selector, hsame.generation, hactive]
          exact news
      | old look olds ahead =>
        exact .old (by dsimp only; rw [hsame.selector, hsame.generation]; exact look) olds
          fun hclosed => hok hclosed look
      | new look active news =>
        refine .new (by dsimp only; rw [hsame.selector, hsame.generation]; exact look) ?_ news
        dsimp only
        rw [hsame.selector, hsame.generation, hactive]
        exact active

include hh in
theorem Handover.gate_step {m g : Nat} {op : GateOp} {pc pc' : GatePc} {gates : Gates}
    (hm : b.gateCalls[m]? = some (g, op, pc)) (hok : Timely o n b (.gate m))
    (hs : stepGate b.gates g op pc = some (gates, pc')) :
    Handover o n old { b with gates := gates, gateCalls := b.gateCalls.set m (g, op, pc') } := by
  have hone : ∀ p, b.gateCalls = [(n, .cutoverFrom o, p)] →
      g = n ∧ op = .cutoverFrom o ∧ pc = p ∧
        b.gateCalls.set m (g, op, pc') = [(n, .cutoverFrom o, pc')] := by
    intro p hp
    rw [hp] at hm ⊢
    obtain ⟨hlt, heq⟩ := List.getElem?_eq_some_iff.mp hm
    have hzero : m = 0 := by simpa using hlt
    subst hzero
    cases heq
    exact ⟨rfl, rfl, rfl, rfl⟩
  have hne : o ≠ n := fun heq => hh.generation (by rw [heq])
  cases hh.cutover with
  | before h active accepting =>
    rcases h with h | h | h
    · rw [h] at hm
      cases hm
    · obtain ⟨rfl, rfl, rfl, hset⟩ := hone _ h
      rw [hset]
      have hgo : ¬ ((b.gates.gate g).retired = true ∨ b.gates.selector g ≠ b.gates.selector o) := by
        simp [hh.retired, hh.selector]
      simp only [stepGate, if_neg hgo, Option.some.injEq, Prod.mk.injEq] at hs
      obtain ⟨rfl, rfl⟩ := hs
      refine hh.closes (.refl _) rfl (fun _ => id) hh.accepting rfl ?_ ?_
      · exact .before (.inr (.inr rfl)) active accepting
      · rw [accepting]
        exact fun hc => absurd hc (by simp)
    · obtain ⟨rfl, rfl, rfl, hset⟩ := hone _ h
      rw [hset]
      have hswitch : b.gates.switch (b.gates.selector g) (b.gates.generation o) (b.gates.generation g) =
          ({ b.gates with
            active := Function.update b.gates.active (b.gates.selector g) (b.gates.generation g) }, true) :=
        if_pos active
      simp only [stepGate, hswitch, if_pos, Option.some.injEq, Prod.mk.injEq] at hs
      obtain ⟨rfl, rfl⟩ := hs
      refine hh.switches ⟨rfl, rfl⟩ rfl rfl ?_ (Function.update_self ..) (hok.1 h)
      exact .switched (.inl rfl) (Function.update_self ..) accepting
  | switched h active accepting =>
    rcases h with h | h
    · obtain ⟨rfl, rfl, rfl, hset⟩ := hone _ h
      rw [hset]
      simp only [stepGate, Option.some.injEq, Prod.mk.injEq] at hs
      obtain ⟨rfl, rfl⟩ := hs
      have hsame := b.gates.retire_same o
      have haccepting : (b.gates.retire o).accepting = b.gates.accepting :=
        funext fun _ => Gates.accepting_retire _
      have hretired : ((b.gates.retire o).gate g).retired = (b.gates.gate g).retired := by
        simp [Gates.retire, Function.update_of_ne (Ne.symm hne)]
      refine hh.closes hsame rfl (fun k => by rw [haccepting]; exact id) ?_ hretired ?_ ?_
      · rw [haccepting]
        exact hh.accepting
      · refine .switched (.inr rfl) ?_ ?_
        · dsimp only
          rw [hsame.generation]
          exact active
        · dsimp only
          rw [haccepting]
          exact accepting
      · rw [haccepting, accepting]
        exact fun hc => absurd hc (by simp)
    · obtain ⟨rfl, rfl, rfl, hset⟩ := hone _ h
      rw [hset]
      simp only [stepGate, Option.some.injEq, Prod.mk.injEq] at hs
      obtain ⟨rfl, rfl⟩ := hs
      have hsame := b.gates.withExecution_same o (b.gates.gate o).execution.beginDraining
      refine hh.closes hsame rfl ?_ ?_ (Gates.retired_withExecution _ _) ?_ fun _ => hok.2 h
      · intro k hk
        rw [Gates.accepting_beginDraining] at hk
        split_ifs at hk
        exact hk
      · rw [Gates.accepting_beginDraining_ne (Ne.symm hne)]
        exact hh.accepting
      · refine .done rfl ?_ ?_
        · show b.gates.active (b.gates.selector g) = (b.gates.withExecution _ _).generation g
          rw [hsame.generation]
          exact active
        · exact Gates.accepting_beginDraining_self
  | done h active accepting =>
    obtain ⟨rfl, rfl, rfl, hset⟩ := hone _ h
    cases hs

include hh in
theorem Handover.dispatch_step (hs : stepDispatch b = some b') : Handover o n old b' := by
  rcases hh.progress with hun | ⟨hstart, -⟩
  · exact hh.begins hun hs
  · exact hh.moves (stepDispatch_moves hstart hh.polite hs) (.inr ⟨hstart, stepDispatch_begun hstart hs⟩)

include hh in
theorem Handover.cascade_step {k : Nat} (hs : stepCascade b k = some b') : Handover o n old b' := by
  refine hh.moves (stepCascade_moves hs) ?_
  have hpc : b'.pc = b.pc := by
    unfold stepCascade at hs
    split at hs
    · cases hs
    · cases hs
      rfl
    · split at hs <;> cases hs <;> rfl
  rcases hh.progress with hun | ⟨hstart, -⟩
  · unfold stepCascade at hs
    rw [hun.cascades] at hs
    cases hs
  · exact .inr ⟨hstart, hpc ▸ hstart⟩

include hh in
theorem Handover.call_step {m : Nat} {c : Call} {s : CallStep} (hm : b.calls[m]? = some c)
    (hok : ∀ outcome, s = .finish outcome → b.kind.ends outcome = false ∧ c.next = none)
    (hs : stepCall b m c s = some b') : Handover o n old b' := by
  refine hh.moves (stepCall_moves hm hok hs) ?_
  have hpc : b'.pc = b.pc := by
    cases s <;> simp only [stepCall] at hs
    · split_ifs at hs
      cases hs
      rfl
    · split at hs <;> cases hs
      rfl
    · split_ifs at hs
      cases hs
      rfl
    · split at hs
      · obtain ⟨gates, -, rfl⟩ := Option.map_eq_some_iff.mp hs
        rfl
      · cases hs
  rcases hh.progress with hun | ⟨hstart, -⟩
  · rw [hun.calls] at hm
    cases hm
  · exact .inr ⟨hstart, hpc ▸ hstart⟩

theorem moves_lease {gates : Gates} {foreign : Nat → Nat} (hgates : Gates.Undisturbed b.gates gates) :
    Moves b { b with gates := gates, foreign := foreign } :=
  moves_of_pc hgates rfl rfl rfl rfl rfl (fun _ => .inl rfl) (fun _ => .inl) fun _ => id

theorem handover_step {l : Label} (hh : Handover o n old b) (hreloads : Reloads o n b l)
    (htimely : Timely o n b l) (hs : step b l = some b') : Handover o n old b' := by
  have hprogress : ∀ gates foreign, Unbegun b ∧ Unbegun { b with gates := gates, foreign := foreign } ∨
      b.pc ≠ .start ∧ b.pc ≠ .start := by
    intro gates foreign
    rcases hh.progress with hun | ⟨hstart, -⟩
    · exact .inl ⟨hun, ⟨hun.pc, hun.cache, hun.calls, hun.cascades⟩⟩
    · exact .inr ⟨hstart, hstart⟩
  cases l with
  | register handler =>
    cases hs
    refine hh.slot_changes (fun _ _ _ _ hin => List.mem_append_left _ hin) ?_
    intro hactive h hin hgate
    rcases List.mem_append.mp hin with hold | hnew
    · exact hold
    · rw [List.mem_singleton] at hnew
      subst hnew
      have hnone : b.gateCalls = [] := hreloads hgate
      cases hh.cutover with
      | before _ active _ => exact absurd (active.symm.trans hactive) hh.generation
      | switched hc _ _ => simp [hnone] at hc
      | done hc _ _ => simp [hnone] at hc
  | remove i =>
    cases hs
    have hmem : ∀ h, h ∈ (b.slot.map (·.filter (·.id ≠ i))).getD [] ↔ h ∈ b.slot.getD [] ∧ h.id ≠ i := by
      intro h
      cases b.slot with
      | none => simp
      | some l => simp
    refine hh.slot_changes ?_ fun _ h hin _ => ((hmem h).mp hin).1
    intro hopen h _ hgate hin
    refine (hmem h).mpr ⟨hin, fun hid => ?_⟩
    have hdone := (hreloads h hin hid).2 hgate
    cases hh.cutover with
    | before hc _ _ => simp [hdone] at hc
    | switched hc _ _ => simp [hdone] at hc
    | done _ _ hclosed =>
      rw [hopen] at hclosed
      cases hclosed
  | gateOp g op =>
    cases hs
    obtain ⟨rfl, rfl, hnone⟩ := hreloads
    rw [hnone]
    cases hh.cutover with
    | before _ active accepting =>
      refine hh.closes (.refl _) rfl (fun _ => id) hh.accepting rfl ?_ ?_
      · exact .before (.inr (.inl rfl)) active accepting
      · rw [accepting]
        exact fun hc => absurd hc (by simp)
    | switched hc _ _ => simp [hnone] at hc
    | done hc _ _ => simp [hnone] at hc
  | gate m =>
    simp only [step] at hs
    split at hs
    · rename_i g op pc hm
      obtain ⟨p, hp, rfl⟩ := Option.map_eq_some_iff.mp hs
      exact hh.gate_step hm htimely hp
    · cases hs
  | lease g =>
    obtain ⟨gates, hgates, rfl⟩ := Option.map_eq_some_iff.mp hs
    exact hh.moves (moves_lease (Gates.acquired_undisturbed hgates)) (hprogress _ _)
  | unlease g =>
    simp only [step] at hs
    split_ifs at hs
    obtain ⟨gates, hgates, rfl⟩ := Option.map_eq_some_iff.mp hs
    exact hh.moves (moves_lease (Gates.dropped_undisturbed hgates)) (hprogress _ _)
  | dispatch => exact hh.dispatch_step hs
  | cascade k => exact hh.cascade_step hs
  | call m s =>
    simp only [step] at hs
    split at hs
    · rename_i c hm
      refine hh.call_step hm ?_ hs
      intro outcome hfinish
      subst hfinish
      exact ⟨hreloads.1, hreloads.2 c hm⟩
    · cases hs

/-- A dispatch before a reload: the old gate is that of the active generation, the staged one shares its
selector, and both take leases. -/
structure Staged (o n : Nat) (b : Bus) : Prop extends Fresh b where
  selector : b.gates.selector o = b.gates.selector n
  generation : b.gates.generation o ≠ b.gates.generation n
  active : b.gates.active (b.gates.selector n) = b.gates.generation o
  old : b.gates.accepting o = true
  new : b.gates.accepting n = true
  retired : (b.gates.gate n).retired = false
  gateCalls : b.gateCalls = []

theorem Staged.handover {b : Bus} (h : Staged o n b) : Handover o n (b.slot.getD []) b where
  selector := h.selector
  generation := h.generation
  accepting := h.new
  retired := h.retired
  cutover := .before (.inl h.gateCalls) h.active h.old
  slot _ _ hin _ := hin
  polite := by
    intro c hc
    rw [h.calls] at hc
    cases hc
  progress := .inl ⟨h.pc, h.cache, h.calls, h.cascades⟩

theorem handover_reach {b₀ b : Bus} (hstaged : Staged o n b₀)
    (hreach : Reach step (fun b l => Reloads o n b l ∧ Timely o n b l) b₀ b) :
    Handover o n (b₀.slot.getD []) b :=
  hreach.invariant hstaged.handover fun _ _ _ hinv hok hs => handover_step hinv hok.1 hok.2 hs

theorem Bus.Settled.not_ahead (hs : b.Settled) (hpolite : b.Polite) : ¬ b.Ahead h := by
  rintro (hin | ⟨rest, hrest, -⟩ | ⟨c, hc, rest, hnext, -⟩)
  · rw [hs.pc] at hin
    cases hin
  · rw [hs.cascades] at hrest
    cases hrest
  · obtain ⟨outcome, hphase⟩ := hs.calls c hc
    rw [(hpolite c hc outcome (.inr hphase)).2] at hnext
    cases hnext

/-- Every handler of gate `g` among these has been called. -/
def Bus.RunsAll (b : Bus) (g : Nat) (handlers : List SnapshotHandler) : Prop :=
  ∀ h ∈ handlers, h.gate = g → b.Called h

/-- No handler of gate `g` has been called. -/
def Bus.RunsNone (b : Bus) (g : Nat) : Prop := ∀ c ∈ b.calls, c.handler.gate ≠ g

/-- A dispatch whose cache names another generation, or none, has called no handler of gate `g`. -/
theorem Bus.Chosen.runsNone {g : Nat} (h : b.Chosen)
    (hlook : b.cache.lookup (b.gates.selector g) ≠ some (b.gates.generation g)) : b.RunsNone g := by
  intro c hc hgate
  refine hlook ?_
  rw [← hgate]
  exact h c.handler (.inl ⟨c, hc, .inl rfl⟩)

end Cordis.EventBus

namespace Cordis.Dispatch

open Machine EventBus

/-- **No event is lost in a reload**: a dispatch whose windows the cutover does not hit has, when it has
settled, run all handlers of exactly one of the two generations: those of the old one that were there
when it began, or those of the staged one. -/
theorem reload_loses_no_event (o n : Nat) (b₀ b : Bus) (hstaged : Staged o n b₀)
    (hreach : Reach step (fun b l => Reloads o n b l ∧ Timely o n b l) b₀ b) (hsettled : b.Settled) :
    b.RunsAll o (b₀.slot.getD []) ∧ b.RunsNone n ∨ b.RunsAll n (b.slot.getD []) ∧ b.RunsNone o := by
  have hh := handover_reach hstaged hreach
  obtain ⟨hchosen, -⟩ := generations_agree hstaged.toFresh hreach.weaken
  have hcalled : ∀ h, b.Due h → b.Called h := fun h hdue =>
    hdue.resolve_right (hsettled.not_ahead hh.polite)
  rcases hh.progress with hun | ⟨-, ht⟩
  · have hpc := hun.pc
    rw [hsettled.pc] at hpc
    cases hpc
  · cases ht with
    | unseen look olds news =>
      rcases hh.cutover.active_cases with ⟨hactive, -⟩ | hactive
      · refine .inl ⟨fun h hold hgate => hcalled h (olds hactive h hold hgate), hchosen.runsNone ?_⟩
        simp [look]
      · refine .inr ⟨fun h hin hgate => hcalled h (news hactive h hin hgate), hchosen.runsNone ?_⟩
        simp [hh.selector, look]
    | old look olds ahead =>
      refine .inl ⟨fun h hold hgate => hcalled h (olds h hold hgate), hchosen.runsNone ?_⟩
      simpa [look] using hh.generation
    | new look active news =>
      refine .inr ⟨fun h hin hgate => hcalled h (news h hin hgate), hchosen.runsNone ?_⟩
      simpa [hh.selector, look] using Ne.symm hh.generation

/-! ## Runs -/

/-- A check that suffices for a step of a reload that misses both windows of a dispatch. -/
def timelyCheck (o n : Nat) (b : Bus) : Label → Bool
  | .register _ | .remove _ => false
  | .gateOp g op => decide (g = n ∧ op = .cutoverFrom o ∧ b.gateCalls = [])
  | .call m (.finish outcome) => ! b.kind.ends outcome && (b.calls[m]?).all (·.next.isNone)
  | .gate _ =>
    (b.cache.lookup (b.gates.selector n)).isSome && b.pc.todo.all (·.gate ≠ o) && b.cascades.isEmpty &&
      b.calls.all (·.next.isNone)
  | _ => true

theorem timely_of_check {o n : Nat} {b : Bus} {l : Label} (h : timelyCheck o n b l = true) :
    Reloads o n b l ∧ Timely o n b l := by
  cases l with
  | register handler => cases h
  | remove i => cases h
  | gateOp g op =>
    simp only [timelyCheck, decide_eq_true_eq] at h
    exact ⟨h, trivial⟩
  | gate m =>
    simp only [timelyCheck, Bool.and_eq_true, List.all_eq_true, decide_eq_true_eq, List.isEmpty_iff,
      Option.isNone_iff_eq_none, Option.isSome_iff_ne_none] at h
    obtain ⟨⟨⟨hlook, htodo⟩, hcascades⟩, hcalls⟩ := h
    refine ⟨trivial, fun _ _ hnone => absurd hnone hlook, fun _ _ h hgate hin => ?_⟩
    rcases hin with hin | ⟨rest, hrest, -⟩ | ⟨c, hc, rest, hnext, -⟩
    · exact htodo h hin hgate
    · rw [hcascades] at hrest
      cases hrest
    · rw [hcalls c hc] at hnext
      cases hnext
  | call m s =>
    cases s with
    | finish outcome =>
      simp only [timelyCheck, Bool.and_eq_true, Bool.not_eq_true'] at h
      refine ⟨⟨h.1, fun c hc => ?_⟩, trivial⟩
      have hnext := h.2
      rw [hc] at hnext
      simpa using hnext
    | _ => exact ⟨trivial, trivial⟩
  | _ => exact ⟨trivial, trivial⟩

theorem staged_emitting : Staged 0 1 emitting :=
  ⟨fresh_emitting, rfl, by decide, rfl, rfl, rfl, rfl, rfl⟩

/-- The cutover of gate `1` from gate `0`. -/
def cutover : List Label := Label.gateOp 1 (.cutoverFrom 0) :: List.replicate 4 (Label.gate 0)

/-- The cutover comes when the old handler has its lease. -/
def handoverRun : List Label :=
  List.replicate 3 Label.dispatch ++ cutover ++ [Label.call 0 .begin, .call 0 (.finish .none), .call 0 .release] ++
    List.replicate 3 Label.dispatch

def handedOver : Bus := (run step emitting handoverRun).getD emitting

theorem reload_loses_no_event_run :
    handedOver.RunsAll 0 (emitting.slot.getD []) ∧ handedOver.RunsNone 1 ∨
      handedOver.RunsAll 1 (handedOver.slot.getD []) ∧ handedOver.RunsNone 0 := by
  have hrun : runIf step (fun b l => timelyCheck 0 1 b l = true) emitting handoverRun = some handedOver := rfl
  refine reload_loses_no_event 0 1 emitting handedOver staged_emitting
    ((reach_of_runIf hrun).mono fun _ _ => timely_of_check) ⟨rfl, rfl, ?_⟩
  intro c hc
  rw [show handedOver.calls = [⟨⟨0, 0⟩, .released .none, none⟩] from rfl, List.mem_singleton] at hc
  subst hc
  exact ⟨.none, rfl⟩

/-- The cutover comes when the old handler is selected and has no lease. -/
def lostRun : List Label := List.replicate 2 Label.dispatch ++ cutover ++ List.replicate 3 Label.dispatch

def lost : Bus := (run step emitting lostRun).getD emitting

/-- A check that suffices for a step of a reload. -/
def reloadsCheck (o n : Nat) (b : Bus) : Label → Bool
  | .gateOp g op => decide (g = n ∧ op = .cutoverFrom o ∧ b.gateCalls = [])
  | .gate _ | .dispatch => true
  | _ => false

theorem reloads_of_check {o n : Nat} {b : Bus} {l : Label} (h : reloadsCheck o n b l = true) :
    Reloads o n b l := by
  cases l with
  | gateOp g op =>
    simp only [reloadsCheck, decide_eq_true_eq] at h
    exact h
  | gate m => trivial
  | dispatch => trivial
  | _ => cases h

/-- An `emit` that runs handlers of neither generation, although both have one in the slot. -/
theorem cutover_loses_event :
    Staged 0 1 emitting ∧ Reach step (Reloads 0 1) emitting lost ∧ lost.Settled ∧
      lost.gateCalls = [(1, .cutoverFrom 0, .done true)] ∧ lost.calls = [] ∧
        emitting.slot = some [⟨0, 0⟩, ⟨1, 1⟩] ∧ lost.slot = emitting.slot := by
  have hrun : runIf step (fun b l => reloadsCheck 0 1 b l = true) emitting lostRun = some lost := rfl
  refine ⟨staged_emitting, (reach_of_runIf hrun).mono fun _ _ => reloads_of_check, ⟨rfl, rfl, ?_⟩,
    rfl, rfl, rfl, rfl⟩
  intro c hc
  cases hc

end Cordis.Dispatch
