import Cordis.Dispatch.EventBus
import Cordis.Library.Machine

/-!
# A dispatch stays with one generation

Whatever happens to the gates meanwhile, what a dispatch selects is what its cache names for the
selectors, so handlers that share a selector are of one generation; and every lease that it has taken
and not dropped is counted on the gate of the handler it was taken for.
-/

namespace Cordis.EventBus

open Machine

/-- The handlers that a dispatch has selected and not called. -/
def Pc.Selects (pc : Pc) (handler : SnapshotHandler) : Prop :=
  (∃ rest, pc = .acquire handler rest) ∨ ∃ rest kept, pc = .filter rest kept ∧ handler ∈ kept

namespace Bus

variable (b : Bus)

/-- The handlers that the dispatch has selected: those it has called, and those it is still to call. -/
def Selected (handler : SnapshotHandler) : Prop :=
  (∃ c ∈ b.calls, c.handler = handler ∨ ∃ rest, c.next = some rest ∧ handler ∈ rest) ∨
    (∃ rest ∈ b.cascades, handler ∈ rest) ∨ b.pc.Selects handler

/-- The cache names the generation of every handler that is selected. -/
def Chosen : Prop :=
  ∀ handler, b.Selected handler →
    b.cache.lookup (b.gates.selector handler.gate) = some (b.gates.generation handler.gate)

/-- The calls of gate `g` that hold their lease. -/
def held (g : Nat) : Nat := b.calls.countP fun c => c.handler.gate = g ∧ c.holds = true

/-- The leases on a gate are those of the dispatch and those of others. -/
def Counted : Prop := ∀ g, b.gates.inflight g = b.foreign g + b.held g

end Bus

variable {b b' : Bus}

theorem Bus.Chosen.mono (h : b.Chosen) (hgates : Gates.Same b.gates b'.gates)
    (hcache : ∀ k a, b.cache.lookup k = some a → b'.cache.lookup k = some a)
    (hselected : ∀ handler, b'.Selected handler → b.Selected handler ∨
      b'.cache.lookup (b.gates.selector handler.gate) = some (b.gates.generation handler.gate)) :
    b'.Chosen := by
  intro handler hnew
  rw [hgates.selector, hgates.generation]
  rcases hselected handler hnew with hold | hvisible
  · exact hcache _ _ (h handler hold)
  · exact hvisible

theorem acquired_same {s t : Gates} {g : Nat} (h : s.tryAcquire g = some t) : Gates.Same s t := by
  obtain ⟨-, rfl⟩ := Gates.tryAcquire_eq h
  exact s.withExecution_same g _

theorem dropped_same {s t : Gates} {g : Nat} (h : s.dropInflight g = some t) : Gates.Same s t := by
  obtain ⟨-, rfl⟩ := Gates.dropInflight_eq h
  exact s.withExecution_same g _

theorem selected_admitted {handler h' : SnapshotHandler} {next : Option (List SnapshotHandler)} {c : Call}
    (hc : c ∈ b.calls ++ [⟨handler, .admitted, next⟩])
    (hh : c.handler = h' ∨ ∃ rest, c.next = some rest ∧ h' ∈ rest) :
    (∃ c ∈ b.calls, c.handler = h' ∨ ∃ rest, c.next = some rest ∧ h' ∈ rest) ∨ handler = h' ∨
      ∃ rest, next = some rest ∧ h' ∈ rest := by
  rcases List.mem_append.mp hc with hold | hnew
  · exact .inl ⟨c, hold, hh⟩
  · rw [List.mem_singleton] at hnew
    subst hnew
    exact .inr hh

theorem Bus.Chosen.moves (h : b.Chosen) (hgates : Gates.Same b.gates b'.gates)
    (hcache : ∀ k a, b.cache.lookup k = some a → b'.cache.lookup k = some a)
    (hcalls : b'.calls = b.calls) (hcascades : b'.cascades = b.cascades)
    (hpc : ∀ handler, b'.pc.Selects handler → b.Selected handler ∨
      b'.cache.lookup (b.gates.selector handler.gate) = some (b.gates.generation handler.gate)) :
    b'.Chosen := by
  refine h.mono hgates hcache fun handler hsel => ?_
  rcases hsel with hsel | hsel | hsel
  · rw [hcalls] at hsel
    exact .inl (.inl hsel)
  · rw [hcascades] at hsel
    exact .inl (.inr (.inl hsel))
  · exact hpc handler hsel

theorem stepDispatch_chosen (h : b.Chosen) (hs : stepDispatch b = some b') : b'.Chosen := by
  unfold stepDispatch at hs
  split at hs
  · split at hs <;> cases hs
    · exact h.moves (.refl _) (fun _ _ => id) rfl rfl (by simp [Pc.Selects])
    · refine h.moves (.refl _) (fun _ _ => id) rfl rfl fun handler hsel => ?_
      dsimp only at hsel
      split_ifs at hsel <;> simp [Pc.Selects] at hsel
  · cases hs
    refine h.moves (.refl _) (fun _ _ => id) rfl rfl fun handler hsel => ?_
    dsimp only at hsel
    split_ifs at hsel <;> simp [Pc.Selects] at hsel
  · rename_i handler rest hpc
    cases hs
    refine h.moves (.refl _) (fun _ _ => VisibilityCache.lookup_visible) rfl rfl fun h' hsel => ?_
    dsimp only at hsel
    split_ifs at hsel with hvisible
    · obtain ⟨rest', heq⟩ | ⟨rest', kept, heq, -⟩ := hsel
      · cases heq
        exact .inr (VisibilityCache.lookup_of_visible hvisible)
      · cases heq
    · simp [Pc.Selects] at hsel
  · rename_i handler rest hpc
    split at hs
    · cases hs
      exact h.moves (.refl _) (fun _ _ => id) rfl rfl (by simp [Pc.Selects])
    · rename_i gates hgates
      cases hs
      refine h.mono (acquired_same hgates) (fun _ _ => id) fun h' hsel => .inl ?_
      rcases hsel with ⟨c, hc, hh⟩ | hsel | hsel
      · rcases selected_admitted hc hh with hold | rfl | ⟨rest', hnone, -⟩
        · exact .inl hold
        · exact .inr (.inr (.inl ⟨rest, hpc⟩))
        · cases hnone
      · exact .inr (.inl hsel)
      · dsimp only at hsel
        split_ifs at hsel <;> simp [Pc.Selects] at hsel
  · split at hs <;> cases hs
    refine h.moves (.refl _) (fun _ _ => id) rfl rfl fun handler hsel => ?_
    dsimp only at hsel
    split_ifs at hsel <;> simp [Pc.Selects] at hsel
  · split_ifs at hs
    cases hs
    exact h.moves (.refl _) (fun _ _ => id) rfl rfl (by simp [Pc.Selects])
  · rename_i kept hpc
    cases hs
    refine h.mono (.refl _) (fun _ _ => id) fun handler hsel => .inl ?_
    rcases hsel with hsel | ⟨rest, hrest, hmem⟩ | hsel
    · exact .inl hsel
    · rcases List.mem_append.mp hrest with hold | hnew
      · exact .inr (.inl ⟨rest, hold, hmem⟩)
      · rw [List.mem_singleton] at hnew
        subst hnew
        exact .inr (.inr (.inr ⟨[], rest, hpc, hmem⟩))
    · simp [Pc.Selects] at hsel
  · rename_i handler rest kept hpc
    cases hs
    refine h.moves (.refl _) (fun _ _ => VisibilityCache.lookup_visible) rfl rfl fun h' hsel => ?_
    obtain ⟨rest', heq⟩ | ⟨rest', kept', heq, hmem⟩ := hsel
    · cases heq
    · cases heq
      split_ifs at hmem with hvisible
      · rcases List.mem_append.mp hmem with hold | hnew
        · exact .inl (.inr (.inr (.inr ⟨_, kept, hpc, hold⟩)))
        · rw [List.mem_singleton] at hnew
          subst hnew
          exact .inr (VisibilityCache.lookup_of_visible hvisible)
      · exact .inl (.inr (.inr (.inr ⟨_, kept, hpc, hmem⟩)))
  · split at hs
    · split_ifs at hs
      cases hs
      exact h.moves (.refl _) (fun _ _ => id) rfl rfl (by simp [Pc.Selects])
    · split_ifs at hs
      cases hs
      exact h.moves (.refl _) (fun _ _ => id) rfl rfl (by simp [Pc.Selects])
  · cases hs

theorem stepCascade_chosen {k : Nat} (h : b.Chosen) (hs : stepCascade b k = some b') : b'.Chosen := by
  unfold stepCascade at hs
  split at hs
  · cases hs
  · cases hs
    refine h.mono (.refl _) (fun _ _ => id) fun handler hsel => .inl ?_
    rcases hsel with hsel | ⟨rest, hrest, hmem⟩ | hsel
    · exact .inl hsel
    · exact .inr (.inl ⟨rest, List.mem_of_mem_eraseIdx hrest, hmem⟩)
    · exact .inr (.inr hsel)
  · rename_i handler rest hk
    have hin : handler :: rest ∈ b.cascades := List.mem_of_getElem? hk
    split at hs
    · cases hs
      refine h.mono (.refl _) (fun _ _ => id) fun h' hsel => .inl ?_
      rcases hsel with hsel | ⟨rest', hrest, hmem⟩ | hsel
      · exact .inl hsel
      · rcases List.mem_or_eq_of_mem_set hrest with hold | rfl
        · exact .inr (.inl ⟨rest', hold, hmem⟩)
        · exact .inr (.inl ⟨_, hin, List.mem_cons_of_mem _ hmem⟩)
      · exact .inr (.inr hsel)
    · rename_i gates hgates
      cases hs
      refine h.mono (acquired_same hgates) (fun _ _ => id) fun h' hsel => .inl ?_
      rcases hsel with ⟨c, hc, hh⟩ | ⟨rest', hrest, hmem⟩ | hsel
      · rcases selected_admitted hc hh with hold | rfl | ⟨rest', hsome, hmem⟩
        · exact .inl hold
        · exact .inr (.inl ⟨_, hin, List.mem_cons_self ..⟩)
        · cases hsome
          exact .inr (.inl ⟨_, hin, List.mem_cons_of_mem _ hmem⟩)
      · exact .inr (.inl ⟨rest', List.mem_of_mem_eraseIdx hrest, hmem⟩)
      · exact .inr (.inr hsel)

theorem selected_set {n : Nat} {c d : Call} {h' : SnapshotHandler} (c' : Call)
    (hn : b.calls[n]? = some c) (hhandler : c'.handler = c.handler)
    (hnext : ∀ rest, c'.next = some rest → c.next = some rest)
    (hd : d ∈ b.calls.set n c')
    (hh : d.handler = h' ∨ ∃ rest, d.next = some rest ∧ h' ∈ rest) :
    ∃ d ∈ b.calls, d.handler = h' ∨ ∃ rest, d.next = some rest ∧ h' ∈ rest := by
  rcases List.mem_or_eq_of_mem_set hd with hold | rfl
  · exact ⟨d, hold, hh⟩
  · refine ⟨c, List.mem_of_getElem? hn, ?_⟩
    rcases hh with heq | ⟨rest, hrest, hmem⟩
    · exact .inl (hhandler.symm.trans heq)
    · exact .inr ⟨rest, hnext rest hrest, hmem⟩

theorem stepCall_chosen {n : Nat} {c : Call} {s : CallStep} (h : b.Chosen)
    (hn : b.calls[n]? = some c) (hs : stepCall b n c s = some b') : b'.Chosen := by
  cases s with
  | begin =>
    simp only [stepCall] at hs
    split_ifs at hs
    cases hs
    refine h.mono (.refl _) (fun _ _ => id) fun h' hsel => .inl ?_
    rcases hsel with ⟨d, hd, hh⟩ | hsel
    · exact .inl (selected_set { c with phase := .running } hn rfl (fun _ => id) hd hh)
    · exact .inr hsel
  | next =>
    simp only [stepCall] at hs
    split at hs
    · cases hs
    · cases hs
    · rename_i rest hnext _
      cases hs
      refine h.mono (.refl _) (fun _ _ => id) fun h' hsel => .inl ?_
      rcases hsel with ⟨d, hd, hh⟩ | ⟨rest', hrest, hmem⟩ | hsel
      · exact .inl (selected_set { c with next := none } hn rfl (by simp) hd hh)
      · rcases List.mem_append.mp hrest with hold | hnew
        · exact .inr (.inl ⟨rest', hold, hmem⟩)
        · rw [List.mem_singleton] at hnew
          subst hnew
          exact .inl ⟨c, List.mem_of_getElem? hn, .inr ⟨rest', hnext, hmem⟩⟩
      · exact .inr (.inr hsel)
  | finish outcome =>
    simp only [stepCall] at hs
    split_ifs at hs
    cases hs
    refine h.mono (.refl _) (fun _ _ => id) fun h' hsel => .inl ?_
    rcases hsel with ⟨d, hd, hh⟩ | hsel
    · exact .inl (selected_set { c with phase := .returned outcome } hn rfl (fun _ => id) hd hh)
    · exact .inr hsel
  | release =>
    simp only [stepCall] at hs
    split at hs
    · rename_i outcome _
      obtain ⟨gates, hgates, rfl⟩ := Option.map_eq_some_iff.mp hs
      refine h.mono (dropped_same hgates) (fun _ _ => id) fun h' hsel => .inl ?_
      rcases hsel with ⟨d, hd, hh⟩ | hsel
      · exact .inl (selected_set { c with phase := .released outcome } hn rfl (fun _ => id) hd hh)
      · exact .inr hsel
    · cases hs

theorem chosen_step {l : Label} (h : b.Chosen) (hs : step b l = some b') : b'.Chosen := by
  cases l with
  | register handler =>
    cases hs
    exact h.moves (.refl _) (fun _ _ => id) rfl rfl fun _ hsel => .inl (.inr (.inr hsel))
  | remove i =>
    cases hs
    exact h.moves (.refl _) (fun _ _ => id) rfl rfl fun _ hsel => .inl (.inr (.inr hsel))
  | gateOp g op =>
    cases hs
    exact h.moves (.refl _) (fun _ _ => id) rfl rfl fun _ hsel => .inl (.inr (.inr hsel))
  | gate n =>
    simp only [step] at hs
    split at hs
    · obtain ⟨p, hp, rfl⟩ := Option.map_eq_some_iff.mp hs
      exact h.moves (stepGate_same hp).1 (fun _ _ => id) rfl rfl fun _ hsel => .inl (.inr (.inr hsel))
    · cases hs
  | lease g =>
    obtain ⟨gates, hgates, rfl⟩ := Option.map_eq_some_iff.mp hs
    exact h.moves (acquired_same hgates) (fun _ _ => id) rfl rfl
      fun _ hsel => .inl (.inr (.inr hsel))
  | unlease g =>
    simp only [step] at hs
    split_ifs at hs
    obtain ⟨gates, hgates, rfl⟩ := Option.map_eq_some_iff.mp hs
    exact h.moves (dropped_same hgates) (fun _ _ => id) rfl rfl
      fun _ hsel => .inl (.inr (.inr hsel))
  | dispatch => exact stepDispatch_chosen h hs
  | cascade k => exact stepCascade_chosen h hs
  | call n s =>
    simp only [step] at hs
    split at hs
    · rename_i c hn
      exact stepCall_chosen h hn hs
    · cases hs

/-! ## Leases -/

theorem held_admitted {gates : Gates} {handler : SnapshotHandler} {next : Option (List SnapshotHandler)}
    (g : Nat) : (b.admitted gates handler next).held g = b.held g + if handler.gate = g then 1 else 0 := by
  unfold Bus.held Bus.admitted
  rw [List.countP_append, List.countP_singleton]
  by_cases hg : handler.gate = g <;> simp [hg, Call.holds]

theorem Bus.Counted.admitted {gates : Gates} {handler : SnapshotHandler}
    {next : Option (List SnapshotHandler)} (h : b.Counted)
    (hgates : b.gates.tryAcquire handler.gate = some gates) : (b.admitted gates handler next).Counted := by
  intro g
  obtain ⟨-, rfl⟩ := Gates.tryAcquire_eq hgates
  have hold := h g
  rw [held_admitted]
  show (b.gates.withExecution _ _).inflight g = b.foreign g + _
  rw [Gates.inflight_withExecution]
  by_cases hg : g = handler.gate
  · subst hg
    rw [if_pos rfl, if_pos rfl]
    show b.gates.inflight handler.gate + 1 = _
    omega
  · rw [if_neg hg, if_neg (Ne.symm hg)]
    omega

theorem held_set {n : Nat} {c : Call} (c' : Call) (hn : b.calls[n]? = some c)
    (hhandler : c'.handler = c.handler) (g : Nat) :
    (b.calls.set n c').countP (fun d => d.handler.gate = g ∧ d.holds = true) +
        (if c.handler.gate = g ∧ c.holds = true then 1 else 0) =
      b.held g + if c.handler.gate = g ∧ c'.holds = true then 1 else 0 := by
  obtain ⟨hlt, hget⟩ := List.getElem?_eq_some_iff.mp hn
  have hle : (if c.handler.gate = g ∧ c.holds = true then 1 else 0) ≤ b.held g := by
    split_ifs with hc
    · exact List.countP_pos_iff.mpr ⟨c, hget ▸ List.getElem_mem hlt, by simpa using hc⟩
    · exact Nat.zero_le _
  unfold Bus.held at hle ⊢
  rw [List.countP_set hlt, hget]
  simp only [decide_eq_true_eq, hhandler]
  omega

theorem Bus.Counted.setPhase {n : Nat} {c : Call} {phase : Phase} (h : b.Counted)
    (hn : b.calls[n]? = some c) (hold : c.holds = true)
    (hnew : Call.holds { c with phase := phase } = true) : (b.setPhase n c phase).Counted := by
  intro g
  have hset := held_set { c with phase := phase } hn rfl g
  rw [hold, hnew] at hset
  have heq : (b.setPhase n c phase).held g = b.held g := Nat.add_right_cancel hset
  rw [heq]
  exact h g

theorem counted_cases {l : Label} (h : b.Counted) (hs : step b l = some b') : b'.Counted := by
  cases l with
  | register handler =>
    cases hs
    exact h
  | remove i =>
    cases hs
    exact h
  | gateOp g op =>
    cases hs
    exact h
  | gate n =>
    simp only [step] at hs
    split at hs
    · obtain ⟨p, hp, rfl⟩ := Option.map_eq_some_iff.mp hs
      intro g
      show p.1.inflight g = _
      rw [(stepGate_same hp).2]
      exact h g
    · cases hs
  | lease g =>
    obtain ⟨gates, hgates, rfl⟩ := Option.map_eq_some_iff.mp hs
    obtain ⟨-, rfl⟩ := Gates.tryAcquire_eq hgates
    intro m
    have hold := h m
    show (b.gates.withExecution _ _).inflight m = Function.update b.foreign g _ m + b.held m
    rw [Gates.inflight_withExecution]
    by_cases hm : m = g
    · subst hm
      rw [if_pos rfl, Function.update_self]
      show b.gates.inflight m + 1 = _
      omega
    · rw [if_neg hm, Function.update_of_ne hm]
      exact hold
  | unlease g =>
    simp only [step] at hs
    split_ifs at hs with hzero
    obtain ⟨gates, hgates, rfl⟩ := Option.map_eq_some_iff.mp hs
    obtain ⟨-, rfl⟩ := Gates.dropInflight_eq hgates
    intro m
    have hold := h m
    show (b.gates.withExecution _ _).inflight m = Function.update b.foreign g _ m + b.held m
    rw [Gates.inflight_withExecution]
    by_cases hm : m = g
    · subst hm
      rw [if_pos rfl, Function.update_self]
      show b.gates.inflight m - 1 = _
      omega
    · rw [if_neg hm, Function.update_of_ne hm]
      exact hold
  | dispatch =>
    simp only [step] at hs
    unfold stepDispatch at hs
    split at hs
    · split at hs <;> cases hs <;> exact h
    · cases hs
      exact h
    · cases hs
      exact h
    · split at hs
      · cases hs
        exact h
      · rename_i hgates
        cases hs
        exact h.admitted hgates
    · split at hs <;> cases hs
      exact h
    · split_ifs at hs
      cases hs
      exact h
    · cases hs
      exact h
    · cases hs
      exact h
    · split at hs <;> split_ifs at hs <;> cases hs <;> exact h
    · cases hs
  | cascade k =>
    simp only [step, stepCascade] at hs
    split at hs
    · cases hs
    · cases hs
      exact h
    · split at hs
      · cases hs
        exact h
      · rename_i hgates
        cases hs
        exact h.admitted hgates
  | call n s =>
    simp only [step] at hs
    split at hs
    · rename_i c hn
      cases s with
      | begin =>
        simp only [stepCall] at hs
        split_ifs at hs with hphase
        cases hs
        exact h.setPhase hn (by simp [Call.holds, hphase]) rfl
      | next =>
        simp only [stepCall] at hs
        split at hs
        · cases hs
        · cases hs
        · cases hs
          intro g
          have hset := held_set { c with next := none } hn rfl g
          have hsame : Call.holds { c with next := none } = c.holds := rfl
          rw [hsame] at hset
          have heq : (b.calls.set n { c with next := none }).countP _ = b.held g :=
            Nat.add_right_cancel hset
          show _ = b.foreign g + (b.calls.set n { c with next := none }).countP _
          rw [heq]
          exact h g
      | finish outcome =>
        simp only [stepCall] at hs
        split_ifs at hs with hphase
        cases hs
        exact h.setPhase hn (by simp [Call.holds, hphase]) rfl
      | release =>
        simp only [stepCall] at hs
        split at hs
        · rename_i outcome hphase
          obtain ⟨gates, hgates, rfl⟩ := Option.map_eq_some_iff.mp hs
          obtain ⟨hpositive, rfl⟩ := Gates.dropInflight_eq hgates
          intro g
          have hold := h g
          have hset := held_set { c with phase := .released outcome } hn rfl g
          have hholds : c.holds = true := by simp [Call.holds, hphase]
          have hgone : Call.holds { c with phase := .released outcome } = false := rfl
          simp only [hholds, hgone, and_true, Bool.false_eq_true, and_false, if_false] at hset
          show (b.gates.withExecution _ _).inflight g = b.foreign g +
            (b.calls.set n { c with phase := .released outcome }).countP _
          rw [Gates.inflight_withExecution]
          by_cases hg : g = c.handler.gate
          · subst hg
            rw [if_pos rfl] at hset ⊢
            show b.gates.inflight c.handler.gate - 1 = _
            omega
          · rw [if_neg (Ne.symm hg)] at hset
            rw [if_neg hg]
            omega
        · cases hs
    · cases hs

/-- What a dispatch has selected shares a generation where it shares a selector, and all leases on a
gate are of others or held by the calls of its handlers. -/
theorem generations_agree {b₀ : Bus} (hfresh : Fresh b₀) (hreach : Reach step anyStep b₀ b) :
    b.Chosen ∧ b.Counted := by
  refine hreach.invariant (I := fun b => b.Chosen ∧ b.Counted) ⟨?_, ?_⟩ ?_
  · intro handler hsel
    rcases hsel with ⟨c, hc, -⟩ | ⟨rest, hrest, -⟩ | hsel
    · rw [hfresh.calls] at hc
      cases hc
    · rw [hfresh.cascades] at hrest
      cases hrest
    · rw [hfresh.pc] at hsel
      simp [Pc.Selects] at hsel
  · intro g
    rw [hfresh.foreign g, Bus.held, hfresh.calls]
    rfl
  · exact fun _ _ _ hinv _ hs => ⟨chosen_step hinv.1 hs, counted_cases hinv.2 hs⟩

end Cordis.EventBus
