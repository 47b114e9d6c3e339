import Cordis.Dispatch.Generations
import Cordis.Dispatch.Invocation

/-!
# An invocation stays with one generation

What an attempt selects is what its own cache names, and a chain that is handed to `invoke` is leased
gate by gate. The leases belong to the future of `invoke`: they cover what runs in it, and what a
middleware runs elsewhere only as long as that future lives.
-/

namespace Cordis.Invocation

open Machine

/-- The gates that the attempt has selected. -/
def State.Selected (s : State) (g : Nat) : Prop :=
  match s.pc with
  | .middleware handler _ kept => g = handler.gate ∨ ∃ p ∈ kept, g = p.2.gate
  | .acquire chain _ => g ∈ chain
  | .invoking | .ending | .ended => g ∈ s.chain
  | _ => False

/-- A gate of the chain has its lease, or is still to be leased; what runs, runs in the life of the
future of `invoke`. -/
def State.Covered (s : State) : Prop :=
  match s.pc with
  | .acquire chain todo => (∀ g ∈ chain, g ∈ todo ∨ g ∈ s.leases) ∧ s.frames = []
  | .invoking => (∀ g ∈ s.chain, g ∈ s.leases) ∧ ∀ f ∈ s.frames, f.gate ∈ s.chain
  | .ending | .ended => ∀ f ∈ s.frames, f.running = false
  | _ => s.frames = []

/-- The invariant of an invocation. -/
structure Bound (s : State) : Prop where
  chosen : ∀ g, s.Selected g → s.cache.lookup (s.gates.selector g) = some (s.gates.generation g)
  counted : ∀ g, s.gates.inflight g = s.foreign g + s.leases.count g
  covered : s.Covered

/-- A step of an invocation whose middleware runs what comes next in the life of the future of
`invoke`: it consumes its `NextInvocation` while the future lives, and what it runs in a task has
returned when the future ends. -/
def Attached (s : State) : Label → Prop
  | .chain (.next _ _) => s.pc = .invoking
  | .chain .stop => ∀ f ∈ s.frames, f.running = true → f.task = false
  | _ => True

variable {s s' : State}

theorem mem_sortMiddleware {kept : List (Nat × MiddlewareEntry)} {p : Nat × MiddlewareEntry} :
    p ∈ sortMiddleware kept ↔ p ∈ kept :=
  (List.perm_insertionSort _ kept).mem_iff

theorem Bound.gates (h : Bound s) {gates : Gates} {foreign : Nat → Nat}
    {gateCalls : List (Nat × GateOp × GatePc)} (hsame : Gates.Same s.gates gates)
    (hcounted : ∀ g, gates.inflight g = foreign g + s.leases.count g) :
    Bound { s with gates := gates, foreign := foreign, gateCalls := gateCalls } where
  chosen g hsel := by
    show s.cache.lookup (gates.selector g) = some (gates.generation g)
    rw [hsame.selector, hsame.generation]
    exact h.chosen g hsel
  counted := hcounted
  covered := h.covered

theorem Bound.looks (h : Bound s) (g : Nat) (pc : Pc)
    (hpc : State.Covered { s with cache := (s.cache.visible s.gates g).1, pc := pc })
    (hsel : ∀ m, State.Selected { s with cache := (s.cache.visible s.gates g).1, pc := pc } m →
      s.Selected m ∨ m = g ∧ (s.cache.visible s.gates g).2 = true) :
    Bound { s with cache := (s.cache.visible s.gates g).1, pc := pc } where
  chosen m hm := by
    rcases hsel m hm with hold | ⟨rfl, hvisible⟩
    · exact VisibilityCache.lookup_visible (h.chosen m hold)
    · exact VisibilityCache.lookup_of_visible hvisible
  counted := h.counted
  covered := hpc

theorem Bound.moves (h : Bound s) (t : State) (hgates : t.gates = s.gates)
    (hforeign : t.foreign = s.foreign) (hleases : t.leases = s.leases) (hcovered : t.Covered)
    (hchosen : ∀ g, t.Selected g → t.cache.lookup (s.gates.selector g) = some (s.gates.generation g)) :
    Bound t where
  chosen g hsel := by
    rw [hgates]
    exact hchosen g hsel
  counted g := by
    rw [hgates, hforeign, hleases]
    exact h.counted g
  covered := hcovered

theorem Bound.acquires {chain todo : List Nat} {g : Nat} {gates : Gates} (h : Bound s)
    (hpc : s.pc = .acquire chain (g :: todo)) (hgates : s.gates.tryAcquire g = some gates) :
    Bound { s with gates := gates, leases := g :: s.leases, pc := .acquire chain todo } := by
  have hcovered := h.covered
  unfold State.Covered at hcovered
  simp only [hpc] at hcovered
  obtain ⟨hall, hframes⟩ := hcovered
  obtain ⟨-, rfl⟩ := Gates.tryAcquire_eq hgates
  have hsame := s.gates.withExecution_same g ⟨(s.gates.gate g).execution.accepting, s.gates.inflight g + 1⟩
  constructor
  · intro m hm
    have hold : s.Selected m := by
      unfold State.Selected
      rw [hpc]
      exact hm
    show s.cache.lookup ((s.gates.withExecution _ _).selector m) =
      some ((s.gates.withExecution _ _).generation m)
    rw [hsame.selector, hsame.generation]
    exact h.chosen m hold
  · intro m
    have hold := h.counted m
    show (s.gates.withExecution _ _).inflight m = s.foreign m + (g :: s.leases).count m
    rw [Gates.inflight_withExecution, List.count_cons]
    by_cases hm : m = g
    · subst hm
      simp only [if_true, beq_self_eq_true]
      omega
    · have hne : ¬ (g == m) = true := by simpa using Ne.symm hm
      rw [if_neg hm, if_neg hne]
      omega
  · refine ⟨fun m hm => ?_, hframes⟩
    rcases hall m hm with htodo | hleased
    · rcases List.mem_cons.mp htodo with rfl | hrest
      · exact .inr (List.mem_cons_self ..)
      · exact .inl hrest
    · exact .inr (List.mem_cons_of_mem _ hleased)

theorem Bound.drops {g : Nat} {rest : List Nat} {gates : Gates} (h : Bound s)
    (hpc : s.pc = .giveUp ∨ s.pc = .ending) (hleases : s.leases = g :: rest)
    (hgates : s.gates.dropInflight g = some gates) :
    Bound { s with gates := gates, leases := rest } := by
  obtain ⟨hpositive, rfl⟩ := Gates.dropInflight_eq hgates
  have hsame := s.gates.withExecution_same g ⟨(s.gates.gate g).execution.accepting, s.gates.inflight g - 1⟩
  constructor
  · intro m hm
    show s.cache.lookup ((s.gates.withExecution _ _).selector m) =
      some ((s.gates.withExecution _ _).generation m)
    rw [hsame.selector, hsame.generation]
    exact h.chosen m hm
  · intro m
    have hold := h.counted m
    rw [hleases, List.count_cons] at hold
    show (s.gates.withExecution _ _).inflight m = s.foreign m + rest.count m
    rw [Gates.inflight_withExecution]
    by_cases hm : m = g
    · subst hm
      simp only [beq_self_eq_true, if_true] at hold ⊢
      omega
    · have hne : ¬ (g == m) = true := by simpa using Ne.symm hm
      rw [if_neg hne] at hold
      rw [if_neg hm]
      omega
  · have hcovered := h.covered
    unfold State.Covered at hcovered ⊢
    rcases hpc with hpc | hpc
    · rw [hpc] at hcovered ⊢
      exact hcovered
    · rw [hpc] at hcovered ⊢
      exact hcovered

theorem snapshot_bound (h : Bound s) (hs : stepSnapshot s = some s') : Bound s' := by
  have hcovered := h.covered
  unfold State.Covered at hcovered
  unfold stepSnapshot at hs
  cases hpc : s.pc with
  | lock =>
    simp only [hpc] at hs hcovered
    cases hs
    exact h.moves _ rfl rfl rfl hcovered fun g hsel => hsel.elim
  | find scopes entries =>
    simp only [hpc] at hcovered
    have hnone : ∀ m, ¬ s.Selected m := by
      intro m hm
      unfold State.Selected at hm
      rw [hpc] at hm
      exact hm
    match scopes, entries with
    | [], entries =>
      simp only [hpc] at hs
      cases hs
      exact h.moves _ rfl rfl rfl hcovered fun g hsel => hsel.elim
    | scope :: rest, [] =>
      simp only [hpc] at hs
      cases hs
      exact h.moves _ rfl rfl rfl hcovered fun g hsel => hsel.elim
    | scope :: rest, entry :: entries =>
      simp only [hpc] at hs
      cases hs
      refine h.looks entry.gate _ ?_ fun m hm => ?_
      · split_ifs <;> exact hcovered
      · split_ifs at hm with hfound
        · obtain rfl | ⟨p, hp, -⟩ := hm
          · exact .inr ⟨rfl, hfound.1⟩
          · cases hp
        · exact hm.elim
  | middleware handler entries kept =>
    simp only [hpc] at hcovered
    have hold : ∀ m, (m = handler.gate ∨ ∃ p ∈ kept, m = p.2.gate) → s.Selected m := by
      intro m hm
      unfold State.Selected
      rw [hpc]
      exact hm
    match entries with
    | [] =>
      simp only [hpc] at hs
      cases hs
      have hmem : ∀ g, g ∈ (sortMiddleware kept).map (·.2.gate) ++ [handler.gate] →
          g = handler.gate ∨ ∃ p ∈ kept, g = p.2.gate := by
        intro g hg
        rcases List.mem_append.mp hg with hg | hg
        · obtain ⟨p, hp, rfl⟩ := List.mem_map.mp hg
          exact .inr ⟨p, mem_sortMiddleware.mp hp, rfl⟩
        · exact .inl (List.mem_singleton.mp hg)
      refine h.moves _ rfl rfl rfl ⟨fun g hg => ?_, hcovered⟩ fun g hg => h.chosen g (hold g (hmem g hg))
      left
      rcases List.mem_append.mp hg with hg | hg
      · exact List.mem_cons_of_mem _ hg
      · rw [List.mem_singleton.mp hg]
        exact List.mem_cons_self ..
    | entry :: entries =>
      simp only [hpc] at hs
      by_cases hscope : entry.scope ∈ s.scopes
      · rw [if_pos hscope] at hs
        cases hs
        refine h.looks entry.gate _ hcovered fun m hm => ?_
        rcases hm with rfl | ⟨p, hp, rfl⟩
        · exact .inl (hold _ (.inl rfl))
        · split_ifs at hp with hvisible
          · rcases List.mem_append.mp hp with hp | hp
            · exact .inl (hold _ (.inr ⟨p, hp, rfl⟩))
            · rw [List.mem_singleton] at hp
              subst hp
              exact .inr ⟨rfl, hvisible.1⟩
          · exact .inl (hold _ (.inr ⟨p, hp, rfl⟩))
      · rw [if_neg hscope] at hs
        cases hs
        exact h.moves _ rfl rfl rfl hcovered fun g hg => h.chosen g (hold g hg)
  | acquire chain todo =>
    simp only [hpc] at hcovered
    have hold : ∀ m ∈ chain, s.Selected m := by
      intro m hm
      unfold State.Selected
      rw [hpc]
      exact hm
    match todo with
    | [] =>
      simp only [hpc] at hs
      cases hs
      refine h.moves _ rfl rfl rfl ⟨fun g hg => (hcovered.1 g hg).resolve_left (by simp), ?_⟩
        fun g hg => h.chosen g (hold g hg)
      intro f hf
      rw [show s.frames = [] from hcovered.2] at hf
      cases hf
    | g :: todo =>
      simp only [hpc] at hs
      split at hs
      · cases hs
        exact h.moves _ rfl rfl rfl hcovered.2 fun g hsel => hsel.elim
      · rename_i gates hgates
        cases hs
        exact h.acquires hpc hgates
  | giveUp =>
    simp only [hpc] at hs hcovered
    split at hs
    · rename_i g rest hleases
      obtain ⟨gates, hgates, rfl⟩ := Option.map_eq_some_iff.mp hs
      exact hpc ▸ h.drops (.inl hpc) hleases hgates
    · split_ifs at hs
      · cases hs
        exact h.moves _ rfl rfl rfl hcovered fun g hsel => hsel.elim
      · cases hs
        exact h.moves _ rfl rfl rfl hcovered fun g hsel => hsel.elim
  | ending =>
    simp only [hpc] at hs hcovered
    split at hs
    · rename_i g rest hleases
      obtain ⟨gates, hgates, rfl⟩ := Option.map_eq_some_iff.mp hs
      exact hpc ▸ h.drops (.inr hpc) hleases hgates
    · cases hs
      refine h.moves _ rfl rfl rfl hcovered fun g hg => h.chosen g ?_
      unfold State.Selected
      rw [hpc]
      exact hg
  | invoking =>
    simp only [hpc] at hs
    cases hs
  | ended =>
    simp only [hpc] at hs
    cases hs
  | notFound =>
    simp only [hpc] at hs
    cases hs
  | generationChanged =>
    simp only [hpc] at hs
    cases hs

theorem callAt_bound {t : State} {index : Nat} {task : Bool} (h : Bound s) (hpc : s.pc = .invoking)
    (ht : s.callAt index task = some t) : Bound t := by
  obtain ⟨gate, hgate, rfl⟩ := Option.map_eq_some_iff.mp ht
  have hcovered := h.covered
  unfold State.Covered at hcovered
  simp only [hpc] at hcovered
  refine h.moves _ rfl rfl rfl ?_ fun g hg => h.chosen g hg
  unfold State.Covered
  simp only [hpc]
  refine ⟨hcovered.1, fun f hf => ?_⟩
  rcases List.mem_append.mp hf with hold | hnew
  · exact hcovered.2 f hold
  · rw [List.mem_singleton] at hnew
    subst hnew
    exact List.mem_of_getElem? hgate

theorem set_bound {n : Nat} {f : Frame} (f' : Frame) (h : Bound s) (hn : s.frames[n]? = some f)
    (hgate : f'.gate = f.gate) (hrunning : f'.running = true → f.running = true) :
    Bound { s with frames := s.frames.set n f' } := by
  have hcovered := h.covered
  unfold State.Covered at hcovered
  have hin : f ∈ s.frames := List.mem_of_getElem? hn
  refine h.moves _ rfl rfl rfl ?_ fun g hg => h.chosen g hg
  have hempty : s.frames ≠ [] := List.ne_nil_of_mem hin
  have hmem : ∀ g ∈ s.frames.set n f', g ∈ s.frames ∨ g = f' := fun g =>
    List.mem_or_eq_of_mem_set
  unfold State.Covered
  cases hpc : s.pc with
  | invoking =>
    simp only [hpc] at hcovered ⊢
    refine ⟨hcovered.1, fun g hg => ?_⟩
    rcases hmem g hg with hold | rfl
    · exact hcovered.2 g hold
    · rw [hgate]
      exact hcovered.2 f hin
  | ending =>
    simp only [hpc] at hcovered ⊢
    intro g hg
    rcases hmem g hg with hold | rfl
    · exact hcovered g hold
    · by_contra hbad
      have hold := hcovered f hin
      rw [hrunning (by simpa using hbad)] at hold
      cases hold
  | ended =>
    simp only [hpc] at hcovered ⊢
    intro g hg
    rcases hmem g hg with hold | rfl
    · exact hcovered g hold
    · by_contra hbad
      have hold := hcovered f hin
      rw [hrunning (by simpa using hbad)] at hold
      cases hold
  | acquire chain todo =>
    simp only [hpc] at hcovered
    exact absurd hcovered.2 hempty
  | _ =>
    simp only [hpc] at hcovered
    exact absurd hcovered hempty

theorem chain_bound {c : ChainStep} (h : Bound s) (hok : Attached s (.chain c))
    (hs : stepChain s c = some s') : Bound s' := by
  cases c with
  | begin =>
    simp only [stepChain] at hs
    split_ifs at hs with hbegin
    exact callAt_bound h hbegin.1 hs
  | next n task =>
    simp only [stepChain] at hs
    split at hs
    · rename_i f hn
      split_ifs at hs
      exact callAt_bound (set_bound { f with next := false } h hn rfl id) hok hs
    · cases hs
  | finish n =>
    simp only [stepChain] at hs
    split at hs
    · rename_i f hn
      split_ifs at hs
      cases hs
      exact set_bound _ h hn rfl nofun
    · cases hs
  | stop =>
    simp only [stepChain] at hs
    split_ifs at hs with hpc
    cases hs
    refine h.moves _ rfl rfl rfl ?_ fun g hg => h.chosen g ?_
    · intro f hf
      obtain ⟨f₀, hf₀, rfl⟩ := List.mem_map.mp hf
      cases hrunning : f₀.running with
      | false => simp
      | true => simp [hok f₀ hf₀ hrunning]
    · unfold State.Selected
      rw [hpc]
      exact hg

theorem change_bound {r : RegistryState} (h : Bound s) (hs : s.change r = some s') : Bound s' := by
  unfold State.change at hs
  split_ifs at hs
  cases hs
  exact h.moves _ rfl rfl rfl h.covered fun g hg => h.chosen g hg

theorem bound_step {l : Label} (h : Bound s) (hok : Attached s l) (hs : step s l = some s') :
    Bound s' := by
  cases l with
  | registerHandler entry => exact change_bound h hs
  | registerMiddleware entry => exact change_bound h hs
  | removeHandler i => exact change_bound h hs
  | removeMiddleware i => exact change_bound h hs
  | commitRevision handlers middleware target => exact change_bound h hs
  | gateOp g op =>
    cases hs
    exact h.moves _ rfl rfl rfl h.covered fun g hg => h.chosen g hg
  | gate n =>
    simp only [step] at hs
    split at hs
    · obtain ⟨p, hp, rfl⟩ := Option.map_eq_some_iff.mp hs
      obtain ⟨hsame, hinflight⟩ := stepGate_same hp
      refine h.gates hsame fun g => ?_
      rw [hinflight]
      exact h.counted g
    · cases hs
  | lease g =>
    obtain ⟨gates, hgates, rfl⟩ := Option.map_eq_some_iff.mp hs
    refine h.gates (EventBus.acquired_same hgates) fun m => ?_
    obtain ⟨-, rfl⟩ := Gates.tryAcquire_eq hgates
    have hold := h.counted m
    rw [Gates.inflight_withExecution]
    by_cases hm : m = g
    · subst hm
      rw [if_pos rfl, Function.update_self]
      show s.gates.inflight m + 1 = _
      omega
    · rw [if_neg hm, Function.update_of_ne hm]
      exact hold
  | unlease g =>
    simp only [step] at hs
    split_ifs at hs with hzero
    obtain ⟨gates, hgates, rfl⟩ := Option.map_eq_some_iff.mp hs
    refine h.gates (EventBus.dropped_same hgates) fun m => ?_
    obtain ⟨-, rfl⟩ := Gates.dropInflight_eq hgates
    have hold := h.counted m
    rw [Gates.inflight_withExecution]
    by_cases hm : m = g
    · subst hm
      rw [if_pos rfl, Function.update_self]
      show s.gates.inflight m - 1 = _
      omega
    · rw [if_neg hm, Function.update_of_ne hm]
      exact hold
  | snapshot => exact snapshot_bound h hs
  | chain c => exact chain_bound h hok hs

theorem bound_fresh (h : Fresh s) : Bound s where
  chosen g hsel := by
    unfold State.Selected at hsel
    rw [h.pc] at hsel
    exact hsel.elim
  counted g := by
    rw [h.foreign g, h.leases]
    rfl
  covered := by
    unfold State.Covered
    rw [h.pc]
    exact h.frames

/-- In the run of an invocation whose middleware stays attached, what runs has its lease. -/
theorem bound_reach {s₀ : State} (hfresh : Fresh s₀) (hreach : Reach step Attached s₀ s) : Bound s :=
  hreach.invariant (bound_fresh hfresh) fun _ _ _ hinv hok hs => bound_step hinv hok hs

theorem Bound.leased (h : Bound s) {f : Frame} (hf : f ∈ s.frames) (hrunning : f.running = true) :
    f.gate ∈ s.leases := by
  have hcovered := h.covered
  unfold State.Covered at hcovered
  have hempty : s.frames ≠ [] := List.ne_nil_of_mem hf
  cases hpc : s.pc with
  | invoking =>
    simp only [hpc] at hcovered
    exact hcovered.1 _ (hcovered.2 f hf)
  | ending =>
    simp only [hpc] at hcovered
    rw [hcovered f hf] at hrunning
    cases hrunning
  | ended =>
    simp only [hpc] at hcovered
    rw [hcovered f hf] at hrunning
    cases hrunning
  | acquire chain todo =>
    simp only [hpc] at hcovered
    exact absurd hcovered.2 hempty
  | _ =>
    simp only [hpc] at hcovered
    exact absurd hcovered hempty

end Cordis.Invocation

namespace Cordis.Dispatch

open Machine

/-- **No dispatch mixes generations**: what one dispatch of an event, or one attempt of a snapshot, has
selected is of one generation wherever it shares a selector. A handler of an event runs while the
dispatch holds a lease on its gate for it, and what an attached invocation runs has its lease. -/
theorem dispatch_single_generation (b₀ b : EventBus.Bus) (s₀ s : Invocation.State) :
    (EventBus.Fresh b₀ → Reach EventBus.step anyStep b₀ b →
      (∀ h h', b.Selected h → b.Selected h' →
        b.gates.selector h.gate = b.gates.selector h'.gate →
          b.gates.generation h.gate = b.gates.generation h'.gate) ∧
      ∀ g, b.foreign g + b.calls.countP (fun c => c.handler.gate = g ∧ c.phase = .running) ≤
        b.gates.inflight g) ∧
    (Invocation.Fresh s₀ → Reach Invocation.step Invocation.Attached s₀ s →
        (∀ g g', s.Selected g → s.Selected g' → s.gates.selector g = s.gates.selector g' →
          s.gates.generation g = s.gates.generation g') ∧
        ∀ f ∈ s.frames, f.running = true →
          f.gate ∈ s.leases ∧ s.foreign f.gate < s.gates.inflight f.gate) := by
  constructor
  · intro hfresh hreach
    obtain ⟨hchosen, hcounted⟩ := EventBus.generations_agree hfresh hreach
    constructor
    · intro h h' hsel hsel' hselector
      have hlook := hchosen h hsel
      rw [hselector, hchosen h' hsel'] at hlook
      exact (Option.some.inj hlook).symm
    · intro g
      rw [hcounted g]
      apply Nat.add_le_add_left
      refine List.countP_mono_left fun c _ hc => ?_
      simp only [decide_eq_true_eq] at hc ⊢
      exact ⟨hc.1, by simp [EventBus.Call.holds, hc.2]⟩
  · intro hfresh hreach
    have hbound := Invocation.bound_reach hfresh hreach
    constructor
    · intro g g' hsel hsel' hselector
      have hlook := hbound.chosen g hsel
      rw [hselector, hbound.chosen g' hsel'] at hlook
      exact (Option.some.inj hlook).symm
    · intro f hf hrunning
      have hleased := hbound.leased hf hrunning
      refine ⟨hleased, ?_⟩
      have hpositive : 0 < s.leases.count f.gate := List.count_pos_iff.mpr hleased
      have hcounted := hbound.counted f.gate
      omega

/-! ## Runs -/

/-- Two generations on one selector, the first one active. -/
def twoGates : Gates where
  active _ := 1
  selector _ := 0
  gate g := .staged (g + 1)

/-- An `emit` to a handler of each. -/
def emitting : EventBus.Bus :=
  ⟨twoGates, fun _ => 0, [], some [⟨0, 0⟩, ⟨1, 1⟩], .emit, .start, [], [], []⟩

/-- The first handler runs. -/
def emitted : EventBus.Bus :=
  (run EventBus.step emitting [.dispatch, .dispatch, .dispatch, .call 0 .begin]).getD emitting

/-- An invocation through one middleware of the active generation. -/
def invoked : Invocation.State :=
  ⟨twoGates, fun _ => 0, [], ⟨[⟨0, 0, 0, 0⟩], [⟨0, 0, 0, 0, 0⟩]⟩, [0], 0, .lock, false, [], [], [], []⟩

/-- The snapshot, the middleware, and the handler that it runs. -/
def attachedRun : List Invocation.Label :=
  List.replicate 7 Invocation.Label.snapshot ++ [Invocation.Label.chain .begin, .chain (.next 0 false)]

def attached : Invocation.State := (run Invocation.step invoked attachedRun).getD invoked

theorem fresh_emitting : EventBus.Fresh emitting := ⟨fun _ => rfl, rfl, rfl, rfl, rfl⟩

theorem fresh_invoked : Invocation.Fresh invoked := ⟨fun _ => rfl, rfl, rfl, rfl, rfl⟩

/-- A check that suffices for an invocation to stay attached. -/
def attachedCheck (s : Invocation.State) : Invocation.Label → Bool
  | .chain (.next _ _) => decide (s.pc = .invoking)
  | .chain .stop => false
  | _ => true

theorem attached_of_check {s : Invocation.State} {l : Invocation.Label}
    (h : attachedCheck s l = true) : Invocation.Attached s l := by
  cases l with
  | chain c =>
    cases c with
    | next n task =>
      show s.pc = .invoking
      exact of_decide_eq_true h
    | stop => cases h
    | _ => trivial
  | _ => trivial

theorem dispatch_single_generation_runs :
    (emitted.foreign 0 + 1 ≤ emitted.gates.inflight 0) ∧
      ∀ f ∈ attached.frames, f.running = true → f.gate ∈ attached.leases := by
  obtain ⟨hevents, hinvocations⟩ := dispatch_single_generation emitting emitted invoked attached
  constructor
  · have hrun : run EventBus.step emitting [.dispatch, .dispatch, .dispatch, .call 0 .begin] =
        some emitted := rfl
    exact (hevents fresh_emitting (reach_of_run hrun)).2 0
  · have hrun : runIf Invocation.step (fun s l => attachedCheck s l = true) invoked attachedRun =
        some attached := rfl
    have hreach := (reach_of_runIf hrun).mono fun _ _ => attached_of_check
    exact fun f hf hrunning =>
      ((hinvocations fresh_invoked hreach).2 f hf hrunning).1

/-- The middleware hands its `NextInvocation` to a task and returns, the generation closes and drains,
and then the task runs the handler. -/
def detachedRun : List Invocation.Label :=
  List.replicate 7 Invocation.Label.snapshot ++ [Invocation.Label.chain .begin, .chain (.finish 0), .chain .stop] ++
    List.replicate 3 Invocation.Label.snapshot ++
    [Invocation.Label.gateOp 0 .close, .gate 0, .gate 0, .gate 0, .chain (.next 0 true)]

def detached : Invocation.State := (run Invocation.step invoked detachedRun).getD invoked

/-- A handler runs with no lease held on its gate, which is closed and drained. -/
theorem detached_next_unleased :
    Invocation.Fresh invoked ∧ Reach Invocation.step anyStep invoked detached ∧
      (∃ f ∈ detached.frames, f.running = true ∧ f.gate = 0) ∧ detached.leases = [] ∧
        detached.gates.inflight 0 = 0 ∧ detached.gates.accepting 0 = false := by
  have hrun : run Invocation.step invoked detachedRun = some detached := rfl
  exact ⟨fresh_invoked, reach_of_run hrun, ⟨_, List.mem_cons_of_mem _ (List.mem_cons_self ..), rfl, rfl⟩,
    rfl, rfl, rfl⟩

end Cordis.Dispatch
