import Cordis.Dispatch.Revision

/-!
# Services during a reload

What is visible is decided by where the reload stands: the old gate before the switch, the staged one
after it. A lease is refused only on the old gate after it began to drain, and then the lookup resolves
once more and finds the staged revision. The cache never says that there is nothing.
-/

namespace Cordis.Revision

open Machine Services

/-! ## Where the reload stands -/

/-- The selector names the staged generation. -/
def Pc.switched : Pc → Bool
  | .cut .retire | .cut .drain | .replace | .committed | .closing true _ | .ended true => true
  | _ => false

/-- The old generation has begun to drain. -/
def Pc.drained : Pc → Bool
  | .replace | .committed | .closing true _ | .ended true => true
  | _ => false

/-- The staged services are in the target Scope. -/
def Pc.replaced : Pc → Bool
  | .committed | .closing true _ | .ended true => true
  | _ => false

/-- The staged invocation registrations are in the target Scope. -/
def Pc.relocates : Pc → Bool
  | .relocated | .cut _ | .replace | .committed | .closing true _ | .ended true => true
  | _ => false

/-- The old revision may go. -/
def Pc.retiresOld : Pc → Bool
  | .closing true _ | .ended true => true
  | _ => false

/-- The staged revision may go. -/
def Pc.retiresStaged : Pc → Bool
  | .closing false _ | .ended false => true
  | _ => false

theorem Pc.switched_of_drained {pc : Pc} (h : pc.drained = true) : pc.switched = true := by
  unfold Pc.drained at h
  split at h <;> first | rfl | cases h

theorem Pc.relocates_of_switched {pc : Pc} (h : pc.switched = true) : pc.relocates = true := by
  unfold Pc.switched at h
  split at h <;> first | rfl | cases h

theorem Pc.not_retiresStaged_of_switched {pc : Pc} (h : pc.switched = true) :
    pc.retiresStaged = false := by
  unfold Pc.switched at h
  split at h <;> first | rfl | cases h

theorem Pc.not_retiresOld_of_not_switched {pc : Pc} (h : pc.switched = false) :
    pc.retiresOld = false := by
  unfold Pc.retiresOld
  split
  · cases h
  · cases h
  · rfl

/-! ## The gates -/

/-- The gates, by where the reload stands. -/
structure Gated (r : Plan) (gates : Gates) (pc : Pc) : Prop where
  selector : gates.selector r.oldGate = gates.selector r.stagedGate
  unique : ∀ g g', gates.selector g = gates.selector g' → gates.generation g = gates.generation g' → g = g'
  distinct : r.oldGate ≠ r.stagedGate
  active : gates.active (gates.selector r.stagedGate) =
    gates.generation (if pc.switched then r.stagedGate else r.oldGate)
  old : gates.accepting r.oldGate = !pc.drained
  staged : pc.retiresStaged = false → gates.accepting r.stagedGate = true
  others : ∀ g, g ≠ r.oldGate → g ≠ r.stagedGate → gates.isVisible g = true → gates.accepting g = true

variable {r : Plan} {s s' : State} {gates gates' : Gates} {pc pc' : Pc} {g : Nat}

theorem Gated.undisturbed (h : Gated r gates pc) (hgates : Gates.Undisturbed gates gates') :
    Gated r gates' pc := by
  obtain ⟨⟨hselector, hgeneration⟩, hactive, haccepting, -⟩ := hgates
  have hvisible : ∀ g, gates'.isVisible g = true ↔ gates.isVisible g = true := by
    intro g
    rw [Gates.isVisible_iff, Gates.isVisible_iff, hselector, hgeneration, hactive]
  constructor
  · rw [hselector]
    exact h.selector
  · rw [hselector, hgeneration]
    exact h.unique
  · exact h.distinct
  · rw [hselector, hgeneration, hactive]
    exact h.active
  · rw [haccepting]
    exact h.old
  · rw [haccepting]
    exact h.staged
  · intro g hold hnew hg
    rw [haccepting]
    exact h.others g hold hnew ((hvisible g).mp hg)

/-- Only the old gate, before the switch, the staged one, after it, and gates of others are visible. -/
theorem Gated.visible_cases (h : Gated r gates pc) (hg : gates.isVisible g = true) :
    g = r.oldGate ∧ pc.switched = false ∨ g = r.stagedGate ∧ pc.switched = true ∨
      g ≠ r.oldGate ∧ g ≠ r.stagedGate ∧ gates.accepting g = true := by
  by_cases hold : g = r.oldGate
  · subst hold
    refine .inl ⟨rfl, ?_⟩
    by_contra hswitched
    rw [Bool.not_eq_false] at hswitched
    have hactive := h.active
    rw [if_pos hswitched, ← h.selector, Gates.isVisible_iff.mp hg] at hactive
    exact h.distinct (h.unique _ _ h.selector hactive)
  · by_cases hnew : g = r.stagedGate
    · subst hnew
      refine .inr (.inl ⟨rfl, ?_⟩)
      by_contra hswitched
      have hactive := h.active
      rw [if_neg hswitched, Gates.isVisible_iff.mp hg] at hactive
      exact h.distinct (h.unique _ _ h.selector hactive.symm)
    · exact .inr (.inr ⟨hold, hnew, h.others g hold hnew hg⟩)

theorem Gated.old_visible (h : Gated r gates pc) (hpc : pc.switched = false) :
    gates.isVisible r.oldGate = true := by
  have hactive := h.active
  rw [Gates.isVisible_iff, h.selector, hactive, hpc]
  rfl

theorem Gated.staged_visible (h : Gated r gates pc) (hpc : pc.switched = true) :
    gates.isVisible r.stagedGate = true := by
  have hactive := h.active
  rw [Gates.isVisible_iff, hactive, if_pos hpc]

theorem Gated.advances (h : Gated r gates pc) (hswitched : pc'.switched = pc.switched)
    (hdrained : pc'.drained = pc.drained)
    (hstaged : pc'.retiresStaged = false → pc.retiresStaged = false) : Gated r gates pc' where
  selector := h.selector
  unique := h.unique
  distinct := h.distinct
  active := by
    rw [hswitched]
    exact h.active
  old := by
    rw [hdrained]
    exact h.old
  staged hpc := h.staged (hstaged hpc)
  others := h.others

theorem Gated.drains (h : Gated r gates pc) (hsame : Gates.Same gates gates')
    (hactive : gates'.active = gates.active)
    (hothers : ∀ g, g ≠ r.oldGate → g ≠ r.stagedGate → gates'.accepting g = gates.accepting g)
    (hswitched : pc'.switched = pc.switched) (hold : gates'.accepting r.oldGate = !pc'.drained)
    (hstaged : pc'.retiresStaged = false → gates'.accepting r.stagedGate = true) :
    Gated r gates' pc' where
  selector := by
    rw [hsame.selector]
    exact h.selector
  unique := by
    rw [hsame.selector, hsame.generation]
    exact h.unique
  distinct := h.distinct
  active := by
    rw [hsame.selector, hsame.generation, hactive, hswitched]
    exact h.active
  old := hold
  staged := hstaged
  others g ho hn hg := by
    rw [hothers g ho hn]
    refine h.others g ho hn ?_
    rw [Gates.isVisible_iff] at hg ⊢
    rw [hsame.selector, hsame.generation, hactive] at hg
    exact hg

theorem Gated.cuts {pc pc' : GatePc} (h : Gated r gates (.cut pc))
    (hs : stepGate gates r.stagedGate (.cutoverFrom r.oldGate) pc = some (gates', pc')) :
    Gated r gates' (Pc.afterCut pc') := by
  cases pc with
  | begin =>
    simp only [stepGate, Option.some.injEq, Prod.mk.injEq] at hs
    obtain ⟨rfl, rfl⟩ := hs
    split_ifs
    · exact h.advances rfl rfl fun _ => rfl
    · exact h.advances rfl rfl fun _ => rfl
  | switch =>
    have hactive : gates.active (gates.selector r.stagedGate) = gates.generation r.oldGate := h.active
    have hswitch : gates.switch (gates.selector r.stagedGate) (gates.generation r.oldGate)
        (gates.generation r.stagedGate) =
        ({ gates with
          active := Function.update gates.active (gates.selector r.stagedGate)
            (gates.generation r.stagedGate) }, true) := if_pos hactive
    simp only [stepGate, hswitch, if_pos, Option.some.injEq, Prod.mk.injEq] at hs
    obtain ⟨rfl, rfl⟩ := hs
    refine ⟨h.selector, h.unique, h.distinct, Function.update_self .., h.old, h.staged, ?_⟩
    intro g ho hn hg
    rw [Gates.isVisible_iff] at hg
    change Function.update gates.active _ _ (gates.selector g) = gates.generation g at hg
    by_cases hsel : gates.selector g = gates.selector r.stagedGate
    · rw [hsel, Function.update_self] at hg
      exact absurd (h.unique _ _ hsel hg.symm) hn
    · rw [Function.update_of_ne hsel] at hg
      exact h.others g ho hn (Gates.isVisible_iff.mpr hg)
  | retire =>
    simp only [stepGate, Option.some.injEq, Prod.mk.injEq] at hs
    obtain ⟨rfl, rfl⟩ := hs
    refine h.drains (gates.retire_same _) rfl (fun g _ _ => Gates.accepting_retire g) rfl ?_ fun _ => ?_
    · rw [Gates.accepting_retire]
      exact h.old
    · rw [Gates.accepting_retire]
      exact h.staged rfl
  | drain =>
    simp only [stepGate, Option.some.injEq, Prod.mk.injEq] at hs
    obtain ⟨rfl, rfl⟩ := hs
    refine h.drains (gates.withExecution_same _ _) rfl (fun g ho _ => Gates.accepting_beginDraining_ne ho) rfl
      Gates.accepting_beginDraining_self fun _ => ?_
    rw [Gates.accepting_beginDraining_ne (Ne.symm h.distinct)]
    exact h.staged rfl
  | done answer => cases hs

theorem Gated.closes {committed : Bool} {pc pc' : GatePc} (h : Gated r gates (.closing committed pc))
    (hs : stepGate gates (if committed then r.oldGate else r.stagedGate) .close pc = some (gates', pc')) :
    Gated r gates' (Pc.afterClose committed pc') := by
  have hgoes : ∀ pc', (Pc.afterClose committed pc').switched = (Pc.closing committed pc).switched ∧
      (Pc.afterClose committed pc').drained = (Pc.closing committed pc).drained ∧
        ((Pc.afterClose committed pc').retiresStaged = false → committed = true) := by
    intro pc'
    unfold Pc.afterClose
    cases committed <;> split <;> simp [Pc.switched, Pc.drained, Pc.retiresStaged]
  obtain ⟨hswitched, hdrained, hstays⟩ := hgoes pc'
  have hstaged : (Pc.afterClose committed pc').retiresStaged = false →
      gates.accepting r.stagedGate = true := by
    intro hpc
    have htrue := hstays hpc
    subst htrue
    exact h.staged rfl
  cases pc with
  | begin =>
    simp only [stepGate, Option.some.injEq, Prod.mk.injEq] at hs
    obtain ⟨rfl, rfl⟩ := hs
    refine h.drains (gates.retire_same _) rfl (fun g _ _ => Gates.accepting_retire g) hswitched ?_ ?_
    · rw [Gates.accepting_retire, hdrained]
      exact h.old
    · rw [Gates.accepting_retire]
      exact hstaged
  | switch =>
    have hkept : gates.switch (gates.selector (if committed then r.oldGate else r.stagedGate))
        (gates.generation (if committed then r.oldGate else r.stagedGate)) GenerationId.NONE =
        (gates, false) := by
      refine if_neg fun hactive => ?_
      have hnow := h.active
      cases committed with
      | true =>
        change gates.active (gates.selector r.oldGate) = gates.generation r.oldGate at hactive
        change _ = gates.generation r.stagedGate at hnow
        rw [h.selector, hnow] at hactive
        exact h.distinct (h.unique _ _ h.selector hactive.symm)
      | false =>
        change gates.active (gates.selector r.stagedGate) = gates.generation r.stagedGate at hactive
        change _ = gates.generation r.oldGate at hnow
        rw [hnow] at hactive
        exact h.distinct (h.unique _ _ h.selector hactive)
    simp only [stepGate, hkept, Option.some.injEq, Prod.mk.injEq] at hs
    obtain ⟨rfl, rfl⟩ := hs
    refine h.advances hswitched hdrained fun hpc => ?_
    have htrue := hstays hpc
    subst htrue
    rfl
  | drain =>
    simp only [stepGate, Option.some.injEq, Prod.mk.injEq] at hs
    obtain ⟨rfl, rfl⟩ := hs
    refine h.drains (gates.withExecution_same _ _) rfl ?_ hswitched ?_ ?_
    · intro g ho hn
      refine Gates.accepting_beginDraining_ne ?_
      split_ifs
      · exact ho
      · exact hn
    · rw [hdrained]
      cases committed with
      | true => exact Gates.accepting_beginDraining_self
      | false =>
        refine (Gates.accepting_beginDraining_ne ?_).trans h.old
        exact h.distinct
    · intro hpc
      have htrue := hstays hpc
      subst htrue
      refine (Gates.accepting_beginDraining_ne ?_).trans (h.staged rfl)
      exact Ne.symm h.distinct
  | retire => cases hs
  | done answer => cases hs

theorem change_eq {i j : Invocation.State} {reg : Invocation.RegistryState} (h : i.change reg = some j) :
    i.pc.locks = false ∧ j = { i with registry := reg } := by
  unfold Invocation.State.change at h
  split_ifs at h with hlocks
  cases h
  exact ⟨by simpa using hlocks, rfl⟩

/-- What a step of the reload does to the gates and to where it stands. -/
structure Progress (r : Plan) (s s' : State) : Prop where
  gated : Gated r s'.gates s'.pc
  same : Gates.Same s.gates s'.gates
  others : ∀ g, g ≠ r.oldGate → g ≠ r.stagedGate → s'.gates.accepting g = s.gates.accepting g
  switched : s.pc.switched = true → s'.pc.switched = true
  drained : s.pc.drained = true → s'.pc.drained = true
  lookups : s'.lookups = s.lookups
  active : ∀ q, q ≠ s.gates.selector r.stagedGate → s'.gates.active q = s.gates.active q

theorem active_of_stepGate {op : GateOp} {pc pc' : GatePc} {g q : Nat}
    (hs : stepGate gates g op pc = some (gates', pc')) (hq : q ≠ gates.selector g) :
    gates'.active q = gates.active q := by
  have hswitch : ∀ a b, (gates.switch (gates.selector g) a b).1.active q = gates.active q := by
    intro a b
    unfold Gates.switch
    split_ifs
    · exact Function.update_of_ne hq _ _
    · rfl
  unfold stepGate at hs
  split at hs <;> cases hs <;> first | rfl | exact hswitch _ _

theorem others_of_stepGate {op : GateOp} {pc pc' : GatePc} {g : Nat}
    (hs : stepGate gates g op pc = some (gates', pc')) (hop : op = .close ∨ ∃ o, op = .cutoverFrom o) :
    ∀ m, m ≠ g → (∀ o, op = .cutoverFrom o → m ≠ o) → gates'.accepting m = gates.accepting m := by
  intro m hg ho
  have hswitch : ∀ k a b, (gates.switch k a b).1.accepting = gates.accepting := by
    intro k a b
    funext m
    show ((gates.switch k a b).1.gate m).execution.accepting = _
    rw [gates.switch_gate k a b]
    rfl
  unfold stepGate at hs
  split at hs <;> cases hs
  · rfl
  · rw [hswitch]
  · exact Gates.accepting_retire m
  · rw [hswitch]
  · exact Gates.accepting_beginDraining_ne hg
  · rfl
  · rw [hswitch]
  · exact Gates.accepting_retire m
  · exact Gates.accepting_beginDraining_ne (ho _ rfl)

theorem progress_of_pc (h : Gated r s.gates s.pc) (hgates : s'.gates = s.gates)
    (hlookups : s'.lookups = s.lookups) (hswitched : s'.pc.switched = s.pc.switched)
    (hdrained : s'.pc.drained = s.pc.drained)
    (hstaged : s'.pc.retiresStaged = false → s.pc.retiresStaged = false) : Progress r s s' := by
  refine ⟨?_, ?_, ?_, ?_, ?_, hlookups, ?_⟩
  · rw [hgates]
    exact h.advances hswitched hdrained hstaged
  · rw [hgates]
    exact .refl _
  · intro g _ _
    rw [hgates]
  · rw [hswitched]
    exact id
  · rw [hdrained]
    exact id
  · intro q _
    rw [hgates]

theorem afterCut_switched {pc pc' : GatePc}
    (hs : stepGate gates r.stagedGate (.cutoverFrom r.oldGate) pc = some (gates', pc'))
    (h : (Pc.cut pc).switched = true) : (Pc.afterCut pc').switched = true := by
  cases pc with
  | retire =>
    cases hs
    rfl
  | drain =>
    cases hs
    rfl
  | _ => cases h

theorem afterClose_flags (committed : Bool) (pc pc' : GatePc) :
    (Pc.afterClose committed pc').switched = (Pc.closing committed pc).switched ∧
      (Pc.afterClose committed pc').drained = (Pc.closing committed pc).drained := by
  unfold Pc.afterClose
  cases committed <;> split <;> exact ⟨rfl, rfl⟩

theorem stepReload_progress {fail : Bool} (h : Gated r s.gates s.pc) (hs : stepReload r s fail = some s') :
    Progress r s s' := by
  unfold stepReload at hs
  cases hpc : s.pc with
  | staged =>
    rw [hpc] at hs
    dsimp only at hs
    split_ifs at hs <;> cases hs
    · exact progress_of_pc h rfl rfl (by rw [hpc]; rfl) (by rw [hpc]; rfl) (by simp [Pc.retiresStaged])
    · exact progress_of_pc h rfl rfl (by rw [hpc]; rfl) (by rw [hpc]; rfl) (by rw [hpc]; exact id)
  | adopted =>
    rw [hpc] at hs
    obtain ⟨i, hi, rfl⟩ := Option.map_eq_some_iff.mp hs
    obtain ⟨-, rfl⟩ := change_eq hi
    exact progress_of_pc h rfl rfl (by rw [hpc]; rfl) (by rw [hpc]; rfl) (by rw [hpc]; exact id)
  | relocated =>
    rw [hpc] at hs
    dsimp only at hs
    split_ifs at hs <;> cases hs
    · exact progress_of_pc h rfl rfl (by rw [hpc]; rfl) (by rw [hpc]; rfl) (by rw [hpc]; exact id)
    · exact progress_of_pc h rfl rfl (by rw [hpc]; rfl) (by rw [hpc]; rfl) (by rw [hpc]; exact id)
  | cut pc =>
    rw [hpc] at h hs
    obtain ⟨p, hp, rfl⟩ := Option.map_eq_some_iff.mp hs
    refine ⟨h.cuts hp, (stepGate_same hp).1, ?_, ?_, ?_, rfl, fun q => active_of_stepGate hp⟩
    · intro g ho hn
      refine others_of_stepGate hp (.inr ⟨_, rfl⟩) g hn fun o heq => ?_
      cases heq
      exact ho
    · rw [hpc]
      exact afterCut_switched hp
    · rw [hpc]
      exact fun hc => absurd hc (by simp [Pc.drained])
  | replace =>
    rw [hpc] at hs
    cases hs
    exact progress_of_pc h rfl rfl (by rw [hpc]; rfl) (by rw [hpc]; rfl) (by rw [hpc]; exact id)
  | committed =>
    rw [hpc] at hs
    cases hs
    exact progress_of_pc h rfl rfl (by rw [hpc]; rfl) (by rw [hpc]; rfl) (by rw [hpc]; exact id)
  | undo =>
    rw [hpc] at hs
    obtain ⟨i, hi, rfl⟩ := Option.map_eq_some_iff.mp hs
    obtain ⟨-, rfl⟩ := change_eq hi
    exact progress_of_pc h rfl rfl (by rw [hpc]; rfl) (by rw [hpc]; rfl) (by rw [hpc]; exact id)
  | restore =>
    rw [hpc] at hs
    cases hs
    exact progress_of_pc h rfl rfl (by rw [hpc]; rfl) (by rw [hpc]; rfl) (by simp [Pc.retiresStaged])
  | closing committed pc =>
    rw [hpc] at h hs
    obtain ⟨p, hp, rfl⟩ := Option.map_eq_some_iff.mp hs
    obtain ⟨hswitched, hdrained⟩ := afterClose_flags committed pc p.2
    refine ⟨h.closes hp, (stepGate_same hp).1, ?_, ?_, ?_, rfl, fun q hq => active_of_stepGate hp ?_⟩
    · intro g ho hn
      refine others_of_stepGate hp (.inl rfl) g ?_ fun o heq => by cases heq
      split_ifs
      · exact ho
      · exact hn
    · rw [hpc, ← hswitched]
      exact id
    · rw [hpc, ← hdrained]
      exact id
    · cases committed with
      | true =>
        rw [if_pos rfl]
        exact fun heq => hq (heq.trans h.selector)
      | false => exact hq
  | ended committed =>
    rw [hpc] at hs
    cases hs

/-! ## Leases -/

/-- A gate that will give a lease, or the old one in a first attempt. -/
def Usable (r : Plan) (gates : Gates) (pc : Pc) (second : Bool) (g : Nat) : Prop :=
  g = r.oldGate ∧ second = false ∨ g = r.stagedGate ∧ pc.switched = true ∨
    g ≠ r.oldGate ∧ g ≠ r.stagedGate ∧ gates.accepting g = true

theorem Gated.usable {second : Bool} (h : Gated r gates pc) (hg : gates.isVisible g = true)
    (hsecond : second = true → pc.drained = true) : Usable r gates pc second g := by
  rcases h.visible_cases hg with ⟨rfl, hpc⟩ | hnew | hother
  · refine .inl ⟨rfl, ?_⟩
    by_contra htrue
    rw [Bool.not_eq_false] at htrue
    have hswitched := Pc.switched_of_drained (hsecond htrue)
    rw [hpc] at hswitched
    cases hswitched
  · exact .inr (.inl hnew)
  · exact .inr (.inr hother)

theorem Gated.refused {second : Bool} (h : Gated r gates pc) (hu : Usable r gates pc second g)
    (htry : gates.tryAcquire g = none) : second = false ∧ pc.drained = true := by
  have hclosed := Gates.not_accepting_of_tryAcquire htry
  rcases hu with ⟨rfl, hsecond⟩ | ⟨rfl, hswitched⟩ | ⟨-, -, hopen⟩
  · refine ⟨hsecond, ?_⟩
    have hold := h.old
    rw [hclosed] at hold
    simpa using hold.symm
  · rw [h.staged (Pc.not_retiresStaged_of_switched hswitched)] at hclosed
    cases hclosed
  · rw [hopen] at hclosed
    cases hclosed

theorem Usable.mono {second : Bool} (h : Usable r gates pc second g)
    (hswitched : pc.switched = true → pc'.switched = true)
    (hothers : ∀ m, m ≠ r.oldGate → m ≠ r.stagedGate → gates'.accepting m = gates.accepting m) :
    Usable r gates' pc' second g := by
  rcases h with hold | ⟨hg, hpc⟩ | ⟨ho, hn, hopen⟩
  · exact .inl hold
  · exact .inr (.inl ⟨hg, hswitched hpc⟩)
  · refine .inr (.inr ⟨ho, hn, ?_⟩)
    rw [hothers g ho hn]
    exact hopen

/-! ## Services -/

/-- What a lookup that is to be served has reached. -/
def Served (r : Plan) (s : State) (l : Lookup) : Prop :=
  match l.pc with
  | .admitted => l.secondAttempt = true → s.pc.drained = true
  | .owned ancestry | .cached ancestry | .resolve ancestry =>
    r.target ∈ ancestry ∧ (l.secondAttempt = true → s.pc.drained = true)
  | .acquire entry => Usable r s.gates s.pc l.secondAttempt entry.gate
  | .found _ => True
  | .notFound | .draining _ => False

/-- The services of one key, for the Scopes in `near`. -/
structure Supplied (r : Plan) (k : ServiceSymbol) (near : ScopeId → Prop) (s : State) : Prop where
  below : ∀ a, near a → Below s.parent r.target a
  parent : s.parent r.source = some r.target
  owner : ∀ a k' e, s.services.entries a k' = some e → e.owner = r.stagedOwner → e.gate = r.stagedGate
  target : ∃ e, s.services.entries r.target k = some e ∧
    if s.pc.replaced then e.owner = r.stagedOwner else e.owner = r.oldOwner ∧ e.gate = r.oldGate
  source : s.pc.locksServices = true →
    ∃ e, s.services.entries r.source k = some e ∧ e.owner = r.stagedOwner
  sound : ∀ a, near a → s.services.Sound a k
  own : ∀ l ∈ s.lookups, ∀ a e, s.services.entries a l.symbol = some e → e.owner ≠ l.fiber
  served : ∀ l ∈ s.lookups, l.symbol = k → near l.scope → Served r s l

/-- What the plan of a reload keeps to. -/
structure Plan.Proper (r : Plan) : Prop where
  source : r.source ∉ r.children
  target : r.target ∉ r.children
  apart : r.source ≠ r.target

variable {k : ServiceSymbol} {near : ScopeId → Prop}

theorem Served.mono {l : Lookup} (h : Served r s l) (hswitched : s.pc.switched = true → s'.pc.switched = true)
    (hdrained : s.pc.drained = true → s'.pc.drained = true)
    (hothers : ∀ m, m ≠ r.oldGate → m ≠ r.stagedGate → s'.gates.accepting m = s.gates.accepting m) :
    Served r s' l := by
  unfold Served at h ⊢
  split
  · rename_i hpc
    rw [hpc] at h
    exact fun hsecond => hdrained (h hsecond)
  · rename_i hpc
    rw [hpc] at h
    exact ⟨h.1, fun hsecond => hdrained (h.2 hsecond)⟩
  · rename_i hpc
    rw [hpc] at h
    exact ⟨h.1, fun hsecond => hdrained (h.2 hsecond)⟩
  · rename_i hpc
    rw [hpc] at h
    exact ⟨h.1, fun hsecond => hdrained (h.2 hsecond)⟩
  · rename_i hpc
    rw [hpc] at h
    exact Usable.mono h hswitched hothers
  · trivial
  · rename_i hpc
    rw [hpc] at h
    exact h
  · rename_i hpc
    rw [hpc] at h
    exact h

theorem Supplied.keeps (h : Supplied r k near s) (hbelow : ∀ a, near a → Below s'.parent r.target a)
    (hparent : s'.parent r.source = some r.target) (hservices : s'.services = s.services)
    (hlookups : s'.lookups = s.lookups) (hreplaced : s'.pc.replaced = s.pc.replaced)
    (hsource : s'.pc.locksServices = true →
      ∃ e, s.services.entries r.source k = some e ∧ e.owner = r.stagedOwner)
    (hswitched : s.pc.switched = true → s'.pc.switched = true)
    (hdrained : s.pc.drained = true → s'.pc.drained = true)
    (hothers : ∀ m, m ≠ r.oldGate → m ≠ r.stagedGate → s'.gates.accepting m = s.gates.accepting m) :
    Supplied r k near s' where
  below := hbelow
  parent := hparent
  owner := by
    rw [hservices]
    exact h.owner
  target := by
    rw [hservices, hreplaced]
    exact h.target
  source := by
    rw [hservices]
    exact hsource
  sound := by
    rw [hservices]
    exact h.sound
  own := by
    rw [hservices, hlookups]
    exact h.own
  served := by
    rw [hlookups]
    exact fun l hl hk hnear => (h.served l hl hk hnear).mono hswitched hdrained hothers

theorem Pc.not_switched {pc : Pc} (hlocks : pc.locksServices = false) (hreplaced : pc.replaced = false) :
    pc.switched = false := by
  unfold Pc.switched
  split <;> simp_all [Pc.locksServices, Pc.replaced]

theorem Pc.switched_of_replaced {pc : Pc} (h : pc.replaced = true) : pc.switched = true := by
  unfold Pc.replaced at h
  split at h <;> first | rfl | cases h

theorem Supplied.visible (h : Supplied r k near s) (hg : Gated r s.gates s.pc)
    (hlocks : s.pc.locksServices = false) :
    ∃ e, s.services.entries r.target k = some e ∧ s.gates.isVisible e.gate = true := by
  obtain ⟨e, he, howner⟩ := h.target
  refine ⟨e, he, ?_⟩
  cases hreplaced : s.pc.replaced with
  | true =>
    rw [if_pos hreplaced] at howner
    rw [h.owner _ _ _ he howner]
    exact hg.staged_visible (Pc.switched_of_replaced hreplaced)
  | false =>
    rw [if_neg (by simp [hreplaced])] at howner
    rw [howner.2]
    exact hg.old_visible (Pc.not_switched hlocks hreplaced)

theorem stepReload_supplied {fail : Bool} (hr : r.Proper) (hk : k ∈ r.symbols) (hg : Gated r s.gates s.pc)
    (h : Supplied r k near s) (hs : stepReload r s fail = some s') : Supplied r k near s' := by
  obtain ⟨-, -, hothers, hswitched, hdrained, hlookups, -⟩ := stepReload_progress hg hs
  unfold stepReload at hs
  have hadopts : ∀ a, a = r.target ∨ a = r.source →
      (∀ b, near b → Below (adopt s.parent r.children a) r.target b) ∧
        adopt s.parent r.children a r.source = some r.target := by
    intro a ha
    constructor
    · intro b hb
      rcases ha with rfl | rfl
      · exact below_adopt hr.target (.inl rfl) (h.below b hb)
      · exact below_adopt hr.source (.inr h.parent) (h.below b hb)
    · unfold adopt
      rw [if_neg hr.source]
      exact h.parent
  cases hpc : s.pc with
  | staged =>
    rw [hpc] at hs
    dsimp only at hs
    split_ifs at hs <;> cases hs
    · exact h.keeps h.below h.parent rfl hlookups (by rw [hpc]; rfl) nofun hswitched hdrained hothers
    · obtain ⟨hbelow, hparent⟩ := hadopts r.target (.inl rfl)
      exact h.keeps hbelow hparent rfl hlookups (by rw [hpc]; rfl) nofun hswitched hdrained hothers
  | adopted =>
    rw [hpc] at hs
    obtain ⟨i, hi, rfl⟩ := Option.map_eq_some_iff.mp hs
    exact h.keeps h.below h.parent rfl hlookups (by rw [hpc]; rfl) nofun hswitched hdrained hothers
  | relocated =>
    rw [hpc] at hs
    dsimp only at hs
    split_ifs at hs with hintact <;> cases hs
    · exact h.keeps h.below h.parent rfl hlookups (by rw [hpc]; rfl)
        (fun _ => ServiceState.revisionIntact_spec hintact hk) hswitched hdrained hothers
    · exact h.keeps h.below h.parent rfl hlookups (by rw [hpc]; rfl) nofun hswitched hdrained hothers
  | cut pc =>
    rw [hpc] at hs
    obtain ⟨p, hp, rfl⟩ := Option.map_eq_some_iff.mp hs
    refine h.keeps h.below h.parent rfl hlookups ?_ (fun _ => h.source (by rw [hpc]; rfl)) hswitched
      hdrained hothers
    rw [hpc]
    show (Pc.afterCut p.2).replaced = _
    unfold Pc.afterCut
    split <;> rfl
  | replace =>
    rw [hpc] at hs
    cases hs
    obtain ⟨e, he, howner⟩ := h.source (by rw [hpc]; rfl)
    refine ⟨h.below, h.parent, ?_, ?_, nofun, fun _ _ => ServiceState.sound_bump, ?_, ?_⟩
    · intro a k' e' he' howner'
      obtain ⟨a₀, e₀, he₀, ho, hgate⟩ := ServiceState.replace_entries he'
      rw [← hgate]
      exact h.owner a₀ k' e₀ he₀ (ho.trans howner')
    · refine ⟨{ e with scope := r.target }, ?_, howner⟩
      exact (ServiceState.replace_target hk).trans (by rw [he]; rfl)
    · intro l hl a e' he'
      obtain ⟨a₀, e₀, he₀, ho, -⟩ := ServiceState.replace_entries he'
      rw [← ho]
      exact h.own l hl a₀ e₀ he₀
    · exact fun l hl hk' hnear => (h.served l hl hk' hnear).mono hswitched hdrained hothers
  | committed =>
    rw [hpc] at hs
    cases hs
    exact h.keeps h.below h.parent rfl hlookups (by rw [hpc]; rfl) nofun hswitched hdrained hothers
  | undo =>
    rw [hpc] at hs
    obtain ⟨i, hi, rfl⟩ := Option.map_eq_some_iff.mp hs
    exact h.keeps h.below h.parent rfl hlookups (by rw [hpc]; rfl) nofun hswitched hdrained hothers
  | restore =>
    rw [hpc] at hs
    cases hs
    obtain ⟨hbelow, hparent⟩ := hadopts r.source (.inr rfl)
    exact h.keeps hbelow hparent rfl hlookups (by rw [hpc]; rfl) nofun hswitched hdrained hothers
  | closing committed pc =>
    rw [hpc] at hs
    obtain ⟨p, hp, rfl⟩ := Option.map_eq_some_iff.mp hs
    have hflags : (Pc.afterClose committed p.2).replaced = (Pc.closing committed pc).replaced ∧
        (Pc.afterClose committed p.2).locksServices = false := by
      unfold Pc.afterClose
      cases committed <;> split <;> exact ⟨rfl, rfl⟩
    refine h.keeps h.below h.parent rfl hlookups ?_ ?_ hswitched hdrained hothers
    · rw [hpc]
      exact hflags.1
    · intro hlocks
      rw [show (State.mk _ _ _ _ (Pc.afterClose committed p.2)).pc.locksServices = false from hflags.2] at hlocks
      cases hlocks
  | ended committed =>
    rw [hpc] at hs
    cases hs

/-! ## What others do -/

/-- Of the lifecycle only this reload runs. Keys of entries are not reused; a service is registered
under a key that is free in its Scope, with the gate of its owner; a Fiber does not look up what it
provides itself; and the registrations of a revision go when the revision goes. -/
def Alone (r : Plan) (s : State) : Label → Prop
  | .invoke scope _ => Below s.parent r.target scope
  | .invocation l =>
    match l with
    | .gateOp .. | .gate _ | .commitRevision .. => False
    | .registerHandler e => e.id ∈ r.handlers → e.gate = r.stagedGate
    | .removeHandler i => ∀ e ∈ s.invocation.registry.handlers, e.id = i →
        (e.gate = r.oldGate → s.pc.retiresOld = true) ∧ (e.gate = r.stagedGate → s.pc.retiresStaged = true)
    | .snapshot => s.invocation.scopes ≠ []
    | _ => True
  | .lookup fiber _ symbol => ∀ a e, s.services.entries a symbol = some e → e.owner ≠ fiber
  | .insert scope symbol entry =>
    s.services.entries scope symbol = none ∧ (entry.owner = r.stagedOwner → entry.gate = r.stagedGate) ∧
      ∀ l ∈ s.lookups, l.symbol = symbol → entry.owner ≠ l.fiber
  | .remove fiber _ _ => (fiber = r.oldOwner → s.pc.retiresOld = true) ∧
      (fiber = r.stagedOwner → s.pc.retiresStaged = true)
  | _ => True

theorem Supplied.changes (h : Supplied r k near s) {services : ServiceState}
    (howner : ∀ a k' e, services.entries a k' = some e → e.owner = r.stagedOwner → e.gate = r.stagedGate)
    (hkept : ∀ a, s.services.entries a k = services.entries a k ∨
      s.services.entries a k = none ∨ a ≠ r.target ∧ s.pc.locksServices = false)
    (hsound : ∀ a, near a → services.Sound a k)
    (hown : ∀ l ∈ s.lookups, ∀ a e, services.entries a l.symbol = some e → e.owner ≠ l.fiber) :
    Supplied r k near { s with services := services } := by
  refine ⟨h.below, h.parent, howner, ?_, ?_, hsound, hown, h.served⟩
  · obtain ⟨e, he, hwho⟩ := h.target
    refine ⟨e, ?_, hwho⟩
    rcases hkept r.target with hsame | hnone | ⟨hne, -⟩
    · exact hsame.symm.trans he
    · rw [he] at hnone
      cases hnone
    · exact absurd rfl hne
  · intro hlocks
    obtain ⟨e, he, hwho⟩ := h.source hlocks
    refine ⟨e, ?_, hwho⟩
    rcases hkept r.source with hsame | hnone | ⟨-, hunlocked⟩
    · exact hsame.symm.trans he
    · rw [he] at hnone
      cases hnone
    · rw [show s.pc.locksServices = true from hlocks] at hunlocked
      cases hunlocked

theorem Supplied.looks (h : Supplied r k near s) {n : Nat} {l l' : Lookup} (hn : s.lookups[n]? = some l)
    (hfiber : l'.fiber = l.fiber) (hsymbol : l'.symbol = l.symbol) (hscope : l'.scope = l.scope)
    (hserved : l.symbol = k → near l.scope → Served r s l → Served r s l') :
    Supplied r k near { s with lookups := s.lookups.set n l' } := by
  have hin : l ∈ s.lookups := List.mem_of_getElem? hn
  refine ⟨h.below, h.parent, h.owner, h.target, h.source, h.sound, ?_, ?_⟩
  · intro m hm
    rcases List.mem_or_eq_of_mem_set hm with hold | rfl
    · exact h.own m hold
    · rw [hfiber, hsymbol]
      exact h.own l hin
  · intro m hm hk hnear
    rcases List.mem_or_eq_of_mem_set hm with hold | rfl
    · exact h.served m hold hk hnear
    · rw [hsymbol] at hk
      rw [hscope] at hnear
      exact hserved hk hnear (h.served l hin hk hnear)

theorem stepLookup_supplied {n : Nat} {l : Lookup} (hg : Gated r s.gates s.pc) (h : Supplied r k near s)
    (hn : s.lookups[n]? = some l) (hs : stepLookup s n l = some s') : Supplied r k near s' := by
  have hin : l ∈ s.lookups := List.mem_of_getElem? hn
  unfold stepLookup at hs
  cases hpc : l.pc with
  | owned ancestry =>
    rw [hpc] at hs
    dsimp only at hs
    split_ifs at hs with hlocks
    split at hs <;> cases hs
    · rename_i entry hentry
      refine h.looks hn rfl rfl rfl fun _ _ _ => ?_
      obtain ⟨a, -, ha⟩ := List.exists_of_findSome?_eq_some hentry
      obtain ⟨he, hwho⟩ := Option.filter_eq_some_iff.mp ha
      simp only [decide_eq_true_eq] at hwho
      exact absurd hwho.1 (h.own l hin a entry he)
    · refine h.looks hn rfl rfl rfl fun _ _ hserved => ?_
      unfold Served at hserved ⊢
      rw [hpc] at hserved
      exact hserved
  | cached ancestry =>
    rw [hpc] at hs
    dsimp only at hs
    split_ifs at hs with hlocks
    split at hs <;> cases hs
    · rename_i entry hentry
      refine h.looks hn rfl rfl rfl fun _ _ hserved => ?_
      unfold Served at hserved ⊢
      rw [hpc] at hserved
      exact hg.usable (ServiceState.cached_visible hentry).1 hserved.2
    · rename_i hnone
      refine h.looks hn rfl rfl rfl fun hk hnear _ => ?_
      subst hk
      exact absurd hnone (ServiceState.cached_ne_none (h.sound l.scope hnear))
    · refine h.looks hn rfl rfl rfl fun _ _ hserved => ?_
      unfold Served at hserved ⊢
      rw [hpc] at hserved
      exact hserved
  | resolve ancestry =>
    rw [hpc] at hs
    dsimp only at hs
    split_ifs at hs with hlocks
    cases hs
    obtain ⟨e, he, hvisible⟩ := h.visible hg (by simpa using hlocks)
    have hserve : l.symbol = k → near l.scope → r.target ∈ ancestry ∧
        (l.secondAttempt = true → s.pc.drained = true) := by
      intro hk hnear
      have hserved := h.served l hin hk hnear
      unfold Served at hserved
      rw [hpc] at hserved
      exact hserved
    have hchange : Supplied r k near
        { s with services := (s.services.resolve s.gates l.scope ancestry l.symbol).1 } := by
      apply h.changes
      · rw [ServiceState.resolve_entries]
        exact h.owner
      · intro a
        rw [ServiceState.resolve_entries]
        exact .inl rfl
      · intro a ha
        refine ServiceState.sound_resolve (h.sound a ha) fun hscope hsymbol => ?_
        subst hscope hsymbol
        exact ServiceState.locate_isSome (hserve rfl ha).1 he hvisible
      · rw [ServiceState.resolve_entries]
        exact h.own
    refine hchange.looks hn rfl rfl rfl fun hk hnear _ => ?_
    obtain ⟨htarget, hsecond⟩ := hserve hk hnear
    subst hk
    obtain ⟨e', a, hfound, -, hvisible'⟩ :=
      ServiceState.resolve_found (h.sound l.scope hnear) htarget he hvisible
    unfold Served
    dsimp only
    rw [hfound]
    exact hg.usable hvisible' hsecond
  | acquire entry =>
    rw [hpc] at hs
    dsimp only at hs
    split at hs
    · rename_i i hi
      cases hs
      obtain ⟨gates, hgates, rfl⟩ := Option.map_eq_some_iff.mp hi
      have hund := Gates.acquired_undisturbed hgates
      have hmoved : Supplied r k near { s with invocation := { s.invocation with
          gates := gates, foreign := Function.update s.invocation.foreign entry.gate
            (s.invocation.foreign entry.gate + 1) } } :=
        h.keeps h.below h.parent rfl rfl rfl h.source id id
          fun m _ _ => congrFun hund.accepting m
      exact hmoved.looks hn rfl rfl rfl fun _ _ _ => trivial
    · rename_i hnone
      have htry : s.gates.tryAcquire entry.gate = none := by
        simpa [Invocation.step, State.gates] using hnone
      split_ifs at hs with hsecond <;> cases hs
      · refine h.looks hn rfl rfl rfl fun _ _ hserved => ?_
        unfold Served at hserved
        rw [hpc] at hserved
        rw [(hg.refused hserved htry).1] at hsecond
        cases hsecond
      · refine h.looks hn rfl rfl rfl fun _ _ hserved => ?_
        unfold Served at hserved ⊢
        rw [hpc] at hserved
        exact fun _ => (hg.refused hserved htry).2
  | admitted =>
    rw [hpc] at hs
    cases hs
  | found entry =>
    rw [hpc] at hs
    cases hs
  | notFound =>
    rw [hpc] at hs
    cases hs
  | draining provider =>
    rw [hpc] at hs
    cases hs

theorem stepSnapshot_undisturbed {i j : Invocation.State} (hs : Invocation.stepSnapshot i = some j) :
    Gates.Undisturbed i.gates j.gates := by
  unfold Invocation.stepSnapshot at hs
  split at hs
  · cases hs
    exact .refl _
  · cases hs
    exact .refl _
  · cases hs
    exact .refl _
  · cases hs
    exact .refl _
  · cases hs
    exact .refl _
  · split_ifs at hs <;> cases hs <;> exact .refl _
  · cases hs
    exact .refl _
  · split at hs
    · cases hs
      exact .refl _
    · rename_i gates hgates
      cases hs
      exact Gates.acquired_undisturbed hgates
  · split at hs
    · obtain ⟨gates, hgates, rfl⟩ := Option.map_eq_some_iff.mp hs
      exact Gates.dropped_undisturbed hgates
    · split_ifs at hs <;> cases hs <;> exact .refl _
  · split at hs
    · obtain ⟨gates, hgates, rfl⟩ := Option.map_eq_some_iff.mp hs
      exact Gates.dropped_undisturbed hgates
    · cases hs
      exact .refl _
  all_goals cases hs

theorem stepChain_frame {i j : Invocation.State} {c : Invocation.ChainStep}
    (hs : Invocation.stepChain i c = some j) :
    j.gates = i.gates ∧ j.registry = i.registry ∧ j.scopes = i.scopes ∧ j.key = i.key ∧
      (j.pc = i.pc ∧ j.secondAttempt = i.secondAttempt ∧ j.cache = i.cache ∨ j.pc = .ending) := by
  have hcall : ∀ (i : Invocation.State) n task j, i.callAt n task = some j →
      j.gates = i.gates ∧ j.registry = i.registry ∧ j.scopes = i.scopes ∧ j.key = i.key ∧
        j.pc = i.pc ∧ j.secondAttempt = i.secondAttempt ∧ j.cache = i.cache := by
    intro i n task j h
    obtain ⟨gate, -, rfl⟩ := Option.map_eq_some_iff.mp h
    exact ⟨rfl, rfl, rfl, rfl, rfl, rfl, rfl⟩
  cases c with
  | begin =>
    simp only [Invocation.stepChain] at hs
    split_ifs at hs
    obtain ⟨hg, hr, hsc, hk, hpc, hsecond, hc⟩ := hcall _ _ _ _ hs
    exact ⟨hg, hr, hsc, hk, .inl ⟨hpc, hsecond, hc⟩⟩
  | next n task =>
    simp only [Invocation.stepChain] at hs
    split at hs
    · split_ifs at hs
      obtain ⟨hg, hr, hsc, hk, hpc, hsecond, hc⟩ := hcall _ _ _ _ hs
      exact ⟨hg, hr, hsc, hk, .inl ⟨hpc, hsecond, hc⟩⟩
    · cases hs
  | finish n =>
    simp only [Invocation.stepChain] at hs
    split at hs
    · split_ifs at hs
      cases hs
      exact ⟨rfl, rfl, rfl, rfl, .inl ⟨rfl, rfl, rfl⟩⟩
    · cases hs
  | stop =>
    simp only [Invocation.stepChain] at hs
    split_ifs at hs
    cases hs
    exact ⟨rfl, rfl, rfl, rfl, .inr rfl⟩

theorem invocation_undisturbed {i j : Invocation.State} {l : Invocation.Label}
    (hok : Alone r s (.invocation l)) (hs : Invocation.step i l = some j) :
    Gates.Undisturbed i.gates j.gates := by
  cases l with
  | registerHandler entry =>
    rw [(change_eq hs).2]
    exact .refl _
  | registerMiddleware entry =>
    rw [(change_eq hs).2]
    exact .refl _
  | removeHandler n =>
    rw [(change_eq hs).2]
    exact .refl _
  | removeMiddleware n =>
    rw [(change_eq hs).2]
    exact .refl _
  | commitRevision handlers middleware target => exact hok.elim
  | gateOp g op => exact hok.elim
  | gate n => exact hok.elim
  | lease g =>
    obtain ⟨gates, hgates, rfl⟩ := Option.map_eq_some_iff.mp hs
    exact Gates.acquired_undisturbed hgates
  | unlease g =>
    simp only [Invocation.step] at hs
    split_ifs at hs
    obtain ⟨gates, hgates, rfl⟩ := Option.map_eq_some_iff.mp hs
    exact Gates.dropped_undisturbed hgates
  | snapshot => exact stepSnapshot_undisturbed hs
  | chain c =>
    rw [(stepChain_frame hs).1]
    exact .refl _

theorem stepLookup_invocation {n : Nat} {l : Lookup} (hs : stepLookup s n l = some s') :
    s'.pc = s.pc ∧ (s'.invocation = s.invocation ∨
      ∃ gates foreign, Gates.Undisturbed s.gates gates ∧
        s'.invocation = { s.invocation with gates := gates, foreign := foreign }) := by
  unfold stepLookup at hs
  split at hs
  · split_ifs at hs
    split at hs <;> cases hs <;> exact ⟨rfl, .inl rfl⟩
  · split_ifs at hs
    split at hs <;> cases hs <;> exact ⟨rfl, .inl rfl⟩
  · split_ifs at hs
    cases hs
    exact ⟨rfl, .inl rfl⟩
  · split at hs
    · rename_i i hi
      cases hs
      obtain ⟨gates, hgates, rfl⟩ := Option.map_eq_some_iff.mp hi
      exact ⟨rfl, .inr ⟨gates, _, Gates.acquired_undisturbed hgates, rfl⟩⟩
    · split_ifs at hs <;> cases hs <;> exact ⟨rfl, .inl rfl⟩
  all_goals cases hs

theorem gated_step {l : Label} (h : Gated r s.gates s.pc) (hok : Alone r s l)
    (hs : step r s l = some s') : Gated r s'.gates s'.pc := by
  cases l with
  | reload fail => exact (stepReload_progress h hs).gated
  | invoke scope chain =>
    simp only [step] at hs
    split_ifs at hs
    cases hs
    exact h
  | invocation l =>
    obtain ⟨i, hi, rfl⟩ := Option.map_eq_some_iff.mp hs
    exact h.undisturbed (invocation_undisturbed hok hi)
  | lookup fiber scope symbol =>
    cases hs
    exact h
  | ancestry n chain =>
    simp only [step] at hs
    split at hs
    · split_ifs at hs
      cases hs
      exact h
    · cases hs
  | advance n =>
    simp only [step] at hs
    split at hs
    · obtain ⟨hpc, hsame | ⟨gates, foreign, hgates, hmoved⟩⟩ := stepLookup_invocation hs
      · unfold State.gates
        rw [hpc, hsame]
        exact h
      · unfold State.gates
        rw [hpc, hmoved]
        exact h.undisturbed hgates
    · cases hs
  | insert scope symbol entry =>
    simp only [step] at hs
    split_ifs at hs
    cases hs
    exact h
  | remove fiber scope symbol =>
    simp only [step] at hs
    split_ifs at hs <;> cases hs <;> exact h
  | bump =>
    simp only [step] at hs
    split_ifs at hs
    cases hs
    exact h

theorem supplied_step {l : Label} (hr : r.Proper) (hk : k ∈ r.symbols) (hg : Gated r s.gates s.pc)
    (h : Supplied r k near s) (hok : Alone r s l) (hs : step r s l = some s') :
    Supplied r k near s' := by
  cases l with
  | reload fail => exact stepReload_supplied hr hk hg h hs
  | invoke scope chain =>
    simp only [step] at hs
    split_ifs at hs
    cases hs
    exact h.keeps h.below h.parent rfl rfl rfl h.source id id fun _ _ _ => rfl
  | invocation l =>
    obtain ⟨i, hi, rfl⟩ := Option.map_eq_some_iff.mp hs
    have hund := invocation_undisturbed hok hi
    exact h.keeps h.below h.parent rfl rfl rfl h.source id id fun m _ _ => congrFun hund.accepting m
  | lookup fiber scope symbol =>
    cases hs
    refine ⟨h.below, h.parent, h.owner, h.target, h.source, h.sound, ?_, ?_⟩
    · intro l hl
      rcases List.mem_append.mp hl with hold | hnew
      · exact h.own l hold
      · rw [List.mem_singleton] at hnew
        subst hnew
        exact hok
    · intro l hl hkey hnear
      rcases List.mem_append.mp hl with hold | hnew
      · exact h.served l hold hkey hnear
      · rw [List.mem_singleton] at hnew
        subst hnew
        exact fun hsecond => absurd hsecond (by simp)
  | ancestry n chain =>
    simp only [step] at hs
    split at hs
    · rename_i l hn
      split_ifs at hs with hready
      cases hs
      obtain ⟨hpc, -, hchain⟩ := hready
      refine h.looks hn rfl rfl rfl fun _ hnear hserved => ?_
      unfold Served at hserved ⊢
      rw [hpc] at hserved
      exact ⟨mem_ancestry (h.below l.scope hnear) hchain, hserved⟩
    · cases hs
  | advance n =>
    simp only [step] at hs
    split at hs
    · rename_i l hn
      exact stepLookup_supplied hg h hn hs
    · cases hs
  | insert scope symbol entry =>
    simp only [step] at hs
    split_ifs at hs with hlocks
    cases hs
    obtain ⟨hvacant, hgate, hfree⟩ := hok
    have hentries : ∀ a k', (s.services.insert scope symbol entry).entries a k' =
        if a = scope ∧ k' = symbol then some { entry with scope := scope }
        else s.services.entries a k' := fun _ _ => rfl
    apply h.changes
    · intro a k' e he hwho
      rw [hentries] at he
      split_ifs at he
      · cases he
        exact hgate hwho
      · exact h.owner a k' e he hwho
    · intro a
      rw [hentries]
      by_cases hnew : a = scope ∧ k = symbol
      · obtain ⟨rfl, rfl⟩ := hnew
        exact .inr (.inl hvacant)
      · rw [if_neg hnew]
        exact .inl rfl
    · exact fun _ _ => ServiceState.sound_bump
    · intro l hl a e he
      rw [hentries] at he
      split_ifs at he with hnew
      · cases he
        exact hfree l hl hnew.2
      · exact h.own l hl a e he
  | remove fiber scope symbol =>
    simp only [step] at hs
    split_ifs at hs with hlocks hwho
    · cases hs
      apply h.changes
      · exact fun a k' e he => h.owner a k' e (ServiceState.remove_entries he)
      · intro a
        by_cases hgone : a = scope ∧ k = symbol
        · obtain ⟨rfl, rfl⟩ := hgone
          refine .inr (.inr ⟨?_, by simpa using hlocks⟩)
          rintro rfl
          obtain ⟨e, he, howner⟩ := h.target
          rw [he] at hwho
          have hfiber : e.owner = fiber := by simpa using hwho
          cases hreplaced : s.pc.replaced with
          | true =>
            rw [if_pos hreplaced] at howner
            have hgone := hok.2 (hfiber.symm.trans howner)
            rw [Pc.not_retiresStaged_of_switched (Pc.switched_of_replaced hreplaced)] at hgone
            cases hgone
          | false =>
            rw [if_neg (by simp [hreplaced])] at howner
            have hgone := hok.1 (hfiber.symm.trans howner.1)
            rw [Pc.not_retiresOld_of_not_switched
              (Pc.not_switched (by simpa using hlocks) hreplaced)] at hgone
            cases hgone
        · exact .inl (ServiceState.remove_entries_ne hgone).symm
      · exact fun a ha => ServiceState.sound_remove (h.sound a ha)
      · exact fun l hl a e he => h.own l hl a e (ServiceState.remove_entries he)
    · cases hs
      exact h
  | bump =>
    simp only [step] at hs
    split_ifs at hs
    cases hs
    exact h.changes h.owner (fun _ => .inl rfl) (fun _ _ => ServiceState.sound_bump) h.own

end Cordis.Revision
