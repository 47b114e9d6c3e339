import Cordis.Fiber.Tenure
import Cordis.Proof.Frame

/-!
# The dependency indexes

An install files the keys of its descriptor in the `DependencyGraph`, each under a lock of its own, while others
dispose of the Fiber, reload it or sweep it. What is filed stays until the Fiber departs, and a cutover carries the
providers along.
-/

namespace Cordis

open Machine

variable {c c' : FiberCell} {l : FiberLabel}

/-! ## Fibers that leave the indexes -/

/-- The finalizer is past its first section and commits `Disposed`. -/
def DisposalPc.departing : DisposalPc → Bool
  | finalizing _ (some .Disposed) false _ | indexed _ (some .Disposed) false => true
  | _ => false

/-- The Fiber is out of the arena, or its disposal has come to the indexes. -/
def FiberCell.Departed (c : FiberCell) : Prop :=
  c.inArena = false ∨ c.inner.state = .Disposed ∨ c.worker.any (·.departing) = true

theorem DisposalPc.departing_iff {pc : DisposalPc} : pc.departing = true ↔
    (∃ result indexes, pc = .finalizing result (some .Disposed) false indexes) ∨
      ∃ result, pc = .indexed result (some .Disposed) false := by
  unfold departing
  split <;> simp_all

theorem departed_step (hc : c.Sound) (hd : c.Departed) (h : c.step l = some c') : c'.Departed := by
  rcases hd with harena | hdisposed | hworker
  · left
    by_contra hin
    rw [(step_same h).arena (by simpa using hin)] at harena
    contradiction
  · exact .inr (.inl (disposed_move hc hdisposed (step_move h)))
  · obtain ⟨pc, hpc, hdeparting⟩ := (Option.any_eq_true _ _).mp hworker
    rcases step_worker h with hsame | ⟨-, hidle, -⟩ | ⟨pc', hpc', hstep⟩
    · exact .inr (.inr (by rw [hsame, hpc]; exact hdeparting))
    · have hrunning := hc.consistent.running pc hpc
      rw [show c.control.phase = .Idle from hidle] at hrunning
      contradiction
    · obtain rfl := Option.some.inj (hpc.symm.trans hpc')
      rcases DisposalPc.departing_iff.mp hdeparting with ⟨result, indexes, rfl⟩ | ⟨result, rfl⟩
      · cases l <;> simp only [FiberCell.stepWorker] at hstep <;> try contradiction
        cases hstep
        exact .inr (.inr rfl)
      · cases l <;> simp only [FiberCell.stepWorker] at hstep <;> try contradiction
        split_ifs at hstep with hin
        · cases hstep
          exact .inr (.inl rfl)
        · cases hstep
          exact .inl (by simpa using hin)

/-! ## What an install has filed -/

namespace FiberCell

/-- How many keys of the descriptor are filed. -/
def filed (c : FiberCell) : Nat :=
  match c.installer with
  | .indexing done => done
  | _ => c.keys

def filedDependencies (c : FiberCell) : List ServiceSymbol := c.inner.descriptor.dependencies.take c.filed

def filedProvisions (c : FiberCell) : List ServiceSymbol :=
  c.inner.descriptor.provisions.take (c.filed - c.inner.descriptor.dependencies.length)

theorem filed_all (h : c.keys ≤ c.filed) : c.filedDependencies = c.inner.descriptor.dependencies ∧
    c.filedProvisions = c.inner.descriptor.provisions := by
  unfold keys at h
  exact ⟨List.take_of_length_le (by omega), List.take_of_length_le (by omega)⟩

theorem keys_le_filed (h : ∀ done, c.installer ≠ .indexing done) : c.keys ≤ c.filed := by
  unfold filed
  split
  · exact absurd ‹_› (h _)
  · exact Nat.le_refl _

end FiberCell

/-- Only the loops of the install file a key. -/
theorem step_filed (hl : l ≠ .installIndex) (h : c.step l = some c') :
    c'.filedDependencies = c.filedDependencies ∧ c'.filedProvisions = c.filedProvisions := by
  have hdescriptor := (step_same h).descriptor
  have hkept : c'.installer = c.installer →
      c'.filedDependencies = c.filedDependencies ∧ c'.filedProvisions = c.filedProvisions := by
    intro hinstaller
    unfold FiberCell.filedDependencies FiberCell.filedProvisions FiberCell.filed FiberCell.keys
    rw [hinstaller, hdescriptor]
    exact ⟨rfl, rfl⟩
  have hpast : c.keys ≤ c.filed → c'.keys ≤ c'.filed →
      c'.filedDependencies = c.filedDependencies ∧ c'.filedProvisions = c.filedProvisions := by
    intro hwas hnow
    rw [(FiberCell.filed_all hwas).1, (FiberCell.filed_all hwas).2, (FiberCell.filed_all hnow).1,
      (FiberCell.filed_all hnow).2, hdescriptor]
    exact ⟨rfl, rfl⟩
  cases step_turn h with
  | activation n pc label was step =>
    by_cases hdispose : ∃ m, l = .activationDispose m
    · obtain ⟨m, rfl⟩ := hdispose
      obtain ⟨e, pc', -, rfl⟩ := stepDispose_eq step
      exact hkept (by rw [dispose_eq]; rfl)
    · obtain ⟨pc', heq⟩ := stepActivation_eq step fun m hm => hdispose ⟨m, hm⟩
      exact hkept (by rw [heq])
  | worker pc was step => exact hkept (by rw [stepWorker_eq step])
  | reload pc was step => exact hkept (by rw [stepReload_eq step])
  | install step =>
    cases l <;> simp only [FiberCell.stepInstall] at step <;> try contradiction
    case installValidate outcome =>
      split at step <;> try contradiction
      rename_i done hdone
      split_ifs at step with hlt
      have hwas : c.keys ≤ c.filed := by
        rw [FiberCell.filed, hdone]
        exact Nat.le_of_not_lt hlt
      split at step <;> cases step <;> exact hpast hwas (Nat.le_refl _)
    all_goals
      repeat' split at step
      all_goals first
        | contradiction
        | (cases step
           exact hpast (FiberCell.keys_le_filed (by simp [*])) (FiberCell.keys_le_filed (by simp)))
  | disposed w p a label now =>
    subst now
    exact hkept (by rw [dispose_eq])
  | called _ _ now | replaced _ _ now | cutover _ _ _ _ _ now | hostFailed _ _ _ now | reclaimed _ _ _ now
  | registered _ _ _ now | detached _ _ now | acquired _ _ _ now | dropped _ _ _ now =>
    subst now
    exact hkept rfl

/-- The provision that is filed next after `n` keys: the dependencies come first. -/
def FiberCell.provisionAt (c : FiberCell) (n : Nat) : Option ServiceSymbol :=
  if n < c.inner.descriptor.dependencies.length then none
  else c.inner.descriptor.provisions[n - c.inner.descriptor.dependencies.length]?

theorem provisionAt_mem {n : Nat} {k : ServiceSymbol} (h : c.provisionAt n = some k) :
    k ∈ c.inner.descriptor.provisions := by
  unfold FiberCell.provisionAt at h
  split_ifs at h
  exact List.mem_of_getElem? h

section Indexing

variable {done : Nat} (hdone : c.installer = .indexing done)
include hdone

theorem provisionAt_none (hall : c.filedProvisions = c.inner.descriptor.provisions) :
    c.provisionAt done = none := by
  unfold FiberCell.filedProvisions FiberCell.filed at hall
  rw [hdone] at hall
  unfold FiberCell.provisionAt
  split_ifs
  · rfl
  · exact List.getElem?_eq_none (List.take_eq_self_iff _ |>.mp hall)

theorem filedDependencies_next : ({ c with installer := .indexing (done + 1) } : FiberCell).filedDependencies =
    c.filedDependencies ++ (c.inner.descriptor.dependencies[done]?).toList := by
  unfold FiberCell.filedDependencies FiberCell.filed
  rw [hdone]
  exact List.take_add_one

theorem filedProvisions_next : ({ c with installer := .indexing (done + 1) } : FiberCell).filedProvisions =
    c.filedProvisions ++ (c.provisionAt done).toList := by
  unfold FiberCell.filedProvisions FiberCell.filed FiberCell.provisionAt
  rw [hdone]
  show List.take (done + 1 - _) _ = List.take (done - _) _ ++ _
  split_ifs with hlt
  · rw [Nat.sub_eq_zero_of_le (Nat.le_of_lt hlt), Nat.sub_eq_zero_of_le hlt]
    rfl
  · rw [Nat.sub_add_comm (Nat.le_of_not_lt hlt)]
    exact List.take_add_one

end Indexing

theorem count_toList {key : Option ServiceSymbol} {k : ServiceSymbol} :
    key.toList.count k = if key = some k then 1 else 0 := by
  cases key <;> simp [List.count_singleton]

/-- The labels that file an entry or move one. -/
def RuntimeLabel.refiles : RuntimeLabel → Bool
  | .fiber _ .installIndex | .commitReload .. => true
  | _ => false

namespace Runtime

variable {rt rt' : Runtime} {l : RuntimeLabel} {f : FiberId}

/-! ## What a step does to the indexes -/

/-- What step `l` does to the dependents and the declared providers. -/
inductive Refiles (rt : Runtime) (l : RuntimeLabel) (rt' : Runtime) : Prop
  | kept (plain : l.refiles = true → rt'.fibers = rt.fibers) (dependents : rt'.dependents = rt.dependents)
      (declared : ∀ s k, (rt'.declared s k).Perm (rt.declared s k))
  /-- The install of Fiber `f` has filed its next key. -/
  | filed (f : FiberId) (c : FiberCell) (done : Nat) (label : l = .fiber f .installIndex)
      (was : rt.fibers f = some c) (installer : c.installer = .indexing done)
      (now : rt'.fibers f = some { c with installer := .indexing (done + 1) })
      (dependents : ∀ k, rt'.dependents k =
        if c.inner.descriptor.dependencies[done]? = some k then rt.dependents k ++ [f] else rt.dependents k)
      (declared : ∀ s k, rt'.declared s k =
        if s = c.origin ∧ c.provisionAt done = some k then rt.declared s k ++ [f] else rt.declared s k)
  /-- Fiber `f` is taken out: by its finalizer, by its rejected install or by a sweep. -/
  | removed (f : FiberId) (departed : ∀ c', rt'.fibers f = some c' → c'.Departed)
      (plain : l.refiles = false)
      (dependents : ∀ k, rt'.dependents k = rt.dependents k ∨
        rt'.dependents k = (rt.dependents k).filter (· ≠ f))
      (declared : ∀ s k, rt'.declared s k = rt.declared s k ∨
        rt'.declared s k = (rt.declared s k).filter (· ≠ f))
  | cut (old staged : FiberId) (staging target : ScopeId) (oldCell c : FiberCell)
      (label : l = .commitReload old staged staging target) (found : CutFrom rt old staged staging target oldCell c)
      (now : rt' = (rt.cutOver ⟨staging, target, staged, old, c.inner.childScopes⟩ oldCell c).setFiber old
        (superseded oldCell))

/-- The indexes name the Fiber as often as its install has filed it, its provisions in the Scope that it is bound
to. -/
structure Entered (rt : Runtime) (f : FiberId) (c : FiberCell) : Prop where
  dependents : ∀ k, (rt.dependents k).count f = c.filedDependencies.count k
  declared : ∀ s k, (rt.declared s k).count f = if s = c.inner.scope then c.filedProvisions.count k else 0

/-- The indexes name Fiber `f` only where its descriptor and its Scope do. -/
structure Rightful (rt : Runtime) (f : FiberId) (c : FiberCell) : Prop where
  dependents : ∀ k, f ∈ rt.dependents k → k ∈ c.inner.descriptor.dependencies
  declared : ∀ s k, f ∈ rt.declared s k → c.inner.scope = s ∧ k ∈ c.inner.descriptor.provisions

/-- What the indexes and the record of Fiber `f` have in common. -/
structure Mirrors (rt : Runtime) (f : FiberId) (c : FiberCell) : Prop where
  rightful : Rightful rt f c
  entered : ¬ c.Departed → Entered rt f c
  /-- A Fiber is bound to another Scope only when all its provisions are filed. -/
  bound : c.inner.scope = c.origin ∨ c.filedProvisions = c.inner.descriptor.provisions

structure Mirrored (rt : Runtime) : Prop where
  topology : Topology rt
  sound : ∀ f c, rt.fibers f = some c → c.Sound
  known : ∀ f c, rt.fibers f = some c → Mirrors rt f c
  unknown : ∀ f, rt.fibers f = none → (∀ k, f ∉ rt.dependents k) ∧ ∀ s k, f ∉ rt.declared s k

/-- `c'` has the keys of `c` in the same Scope, and as many of them are filed. -/
structure SameKeys (c c' : FiberCell) : Prop where
  descriptor : c'.inner.descriptor = c.inner.descriptor
  scope : c'.inner.scope = c.inner.scope
  origin : c'.origin = c.origin
  dependencies : c'.filedDependencies = c.filedDependencies
  provisions : c'.filedProvisions = c.filedProvisions
  departed : c.Departed → c'.Departed

theorem Acts.index (h : Acts rt f c l .installIndex) : l = .fiber f .installIndex := by
  cases h with
  | own answer =>
    have hkind := answered_kind answer
    rename_i a
    cases a <;> simp [FiberLabel.kind] at hkind
    rfl

theorem Follows.sameKeys (h : Follows rt l rt') (hsound : ∀ f c, rt.fibers f = some c → c.Sound)
    (hplain : l = .fiber f .installIndex → rt'.fibers = rt.fibers)
    (hbound : ∀ old staging target, l = .commitReload old f staging target → rt'.fibers = rt.fibers)
    (hc : rt.fibers f = some c) (hc' : rt'.fibers f = some c') : SameKeys c c' := by
  have hrefl : c' = c → SameKeys c c' := by
    rintro rfl
    exact ⟨rfl, rfl, rfl, rfl, rfl, id⟩
  obtain ⟨d, hd, hstep⟩ := h.cells f c hc
  obtain rfl := Option.some.inj (hc'.symm.trans hd)
  rcases hstep with hsame | ⟨a, ha, hacts⟩
  · exact hrefl hsame
  have hfixed : rt'.fibers = rt.fibers → SameKeys c c' := by
    intro hfibers
    rw [hfibers, hc] at hc'
    exact hrefl (Option.some.inj hc').symm
  by_cases hindex : a = .installIndex
  · subst hindex
    exact hfixed (hplain hacts.index)
  by_cases hcut : ∃ old staging target, l = .commitReload old f staging target
  · obtain ⟨old, staging, target, hl⟩ := hcut
    exact hfixed (hbound old staging target hl)
  obtain ⟨hdependencies, hprovisions⟩ := step_filed hindex ha
  have hscope := step_scope ha fun t active heq => by
    obtain ⟨old, staging, hl⟩ := hacts.runs.cutover t active heq
    exact hcut ⟨old, staging, t, hl⟩
  exact ⟨(step_same ha).descriptor, hscope, (step_same ha).origin, hdependencies, hprovisions,
    fun hd => departed_step (hsound f c hc) hd ha⟩

theorem Rightful.shrinks (h : Rightful rt f c) (hkeys : SameKeys c c')
    (hdependents : ∀ k, f ∈ rt'.dependents k → f ∈ rt.dependents k)
    (hdeclared : ∀ s k, f ∈ rt'.declared s k → f ∈ rt.declared s k) : Rightful rt' f c' where
  dependents := fun k hf => by
    rw [hkeys.descriptor]
    exact h.dependents k (hdependents k hf)
  declared := fun s k hf => by
    rw [hkeys.descriptor, hkeys.scope]
    exact h.declared s k (hdeclared s k hf)

theorem SameKeys.bound (h : SameKeys c c')
    (hbound : c.inner.scope = c.origin ∨ c.filedProvisions = c.inner.descriptor.provisions) :
    c'.inner.scope = c'.origin ∨ c'.filedProvisions = c'.inner.descriptor.provisions := by
  rw [h.scope, h.origin, h.provisions, h.descriptor]
  exact hbound

theorem mem_of_count {ids ids' : List FiberId} (h : ids'.count f = ids.count f) (hf : f ∈ ids') : f ∈ ids :=
  List.count_pos_iff.mp (h ▸ List.count_pos_iff.mpr hf)

/-- Fiber `f` keeps its entries. -/
theorem Mirrors.kept (h : Mirrors rt f c) (hkeys : SameKeys c c')
    (hdependents : ∀ k, (rt'.dependents k).count f = (rt.dependents k).count f)
    (hdeclared : ∀ s k, (rt'.declared s k).count f = (rt.declared s k).count f) : Mirrors rt' f c' where
  rightful := h.rightful.shrinks hkeys (fun k => mem_of_count (hdependents k)) fun s k =>
    mem_of_count (hdeclared s k)
  entered := fun hstays => by
    have hentered := h.entered fun hd => hstays (hkeys.departed hd)
    refine ⟨fun k => ?_, fun s k => ?_⟩
    · rw [hdependents, hkeys.dependencies]
      exact hentered.dependents k
    · rw [hdeclared, hkeys.scope, hkeys.provisions]
      exact hentered.declared s k
  bound := hkeys.bound h.bound

/-- Fiber `f` has departed, and leaves what entries it has. -/
theorem Mirrors.thinned (h : Mirrors rt f c) (hkeys : SameKeys c c') (hdeparted : c'.Departed)
    (hdependents : ∀ k, f ∈ rt'.dependents k → f ∈ rt.dependents k)
    (hdeclared : ∀ s k, f ∈ rt'.declared s k → f ∈ rt.declared s k) : Mirrors rt' f c' where
  rightful := h.rightful.shrinks hkeys hdependents hdeclared
  entered := fun hstays => absurd hdeparted hstays
  bound := hkeys.bound h.bound

theorem count_filed {ids : List FiberId} {P : Prop} [Decidable P] :
    (if P then ids ++ [f] else ids).count f = ids.count f + if P then 1 else 0 := by
  split_ifs
  · rw [List.count_append, List.count_singleton_self]
  · rfl

theorem mem_filed {ids : List FiberId} {P : Prop} [Decidable P] (h : f ∈ if P then ids ++ [f] else ids) :
    f ∈ ids ∨ P := by
  split_ifs at h with hp
  · exact .inr hp
  · exact .inl h

theorem count_other {g : FiberId} (h : f ≠ g) {ids : List FiberId} {P : Prop} [Decidable P] :
    (if P then ids ++ [g] else ids).count f = ids.count f := by
  split_ifs
  · rw [List.count_append, List.count_singleton, if_neg (by simpa using Ne.symm h), Nat.add_zero]
  · rfl

theorem mem_other {g : FiberId} (h : f ≠ g) {ids : List FiberId} {P : Prop} [Decidable P]
    (hf : f ∈ if P then ids ++ [g] else ids) : f ∈ ids :=
  mem_of_count (count_other h) hf

/-- Fiber `f` gets one more entry. -/
theorem Mirrors.filed (h : Mirrors rt f c) {done : Nat} (hdone : c.installer = .indexing done)
    (hdependents : ∀ k, rt'.dependents k =
      if c.inner.descriptor.dependencies[done]? = some k then rt.dependents k ++ [f] else rt.dependents k)
    (hdeclared : ∀ s k, rt'.declared s k =
      if s = c.origin ∧ c.provisionAt done = some k then rt.declared s k ++ [f] else rt.declared s k) :
    Mirrors rt' f { c with installer := .indexing (done + 1) } where
  rightful :=
    { dependents := fun k hf => by
        rcases mem_filed (hdependents k ▸ hf) with hwas | hkey
        · exact h.rightful.dependents k hwas
        · exact List.mem_of_getElem? hkey
      declared := fun s k hf => by
        rcases mem_filed (hdeclared s k ▸ hf) with hwas | ⟨rfl, hkey⟩
        · exact h.rightful.declared s k hwas
        · rcases h.bound with hscope | hall
          · exact ⟨hscope, provisionAt_mem hkey⟩
          · rw [provisionAt_none hdone hall] at hkey
            contradiction }
  entered := fun hstays => by
    obtain ⟨hdependencies, hprovisions⟩ := h.entered hstays
    refine ⟨fun k => ?_, fun s k => ?_⟩
    · rw [hdependents, count_filed, hdependencies, filedDependencies_next hdone, List.count_append, count_toList]
    · rw [hdeclared, count_filed, hprovisions, filedProvisions_next hdone, List.count_append, count_toList]
      show _ = if s = c.inner.scope then _ else 0
      rcases h.bound with hscope | hall
      · rw [hscope]
        split_ifs <;> simp_all
      · rw [provisionAt_none hdone hall]
        simp
  bound := by
    rcases h.bound with hscope | hall
    · exact .inl hscope
    · right
      rw [filedProvisions_next hdone, provisionAt_none hdone hall, Option.toList_none, List.append_nil]
      exact hall

theorem count_filter_ne {ids : List FiberId} {f g : FiberId} :
    (ids.filter (· ≠ f)).count g = if g = f then 0 else ids.count g := by
  split_ifs with hg
  · subst hg
    exact List.count_eq_zero.mpr fun hmem => by simpa using (List.mem_filter.mp hmem).2
  · exact List.count_filter (by simpa using hg)

theorem mem_removed {ids ids' : List FiberId} {g : FiberId} (h : ids' = ids ∨ ids' = ids.filter (· ≠ g))
    (hf : f ∈ ids') : f ∈ ids := by
  rcases h with rfl | rfl
  · exact hf
  · exact List.mem_of_mem_filter hf

theorem count_removed {ids ids' : List FiberId} {g : FiberId} (hfg : f ≠ g)
    (h : ids' = ids ∨ ids' = ids.filter (· ≠ g)) : ids'.count f = ids.count f := by
  rcases h with rfl | rfl
  · rfl
  · rw [count_filter_ne, if_neg hfg]

theorem movedProviders_count {declared : ScopeId → ServiceSymbol → List FiberId} {source dest : ScopeId}
    {symbols : List ServiceSymbol} {moved g : FiberId} (h : moved ≠ g) (s : ScopeId) (k : ServiceSymbol) :
    (movedProviders declared source dest symbols moved s k).count g = (declared s k).count g := by
  unfold movedProviders
  split_ifs
  · rw [count_filter_ne, if_neg (Ne.symm h)]
  · rw [List.count_append, List.count_singleton, if_neg (by simpa using h), Nat.add_zero]
  · rfl
  · rfl

section Cut

variable {old staged : FiberId} {staging target : ScopeId} {oldCell : FiberCell}

/-- The gate of a Fiber that is cut over is open, so that it has no finalizer. -/
theorem CutFrom.stays (h : CutFrom rt old staged staging target oldCell c) (ht : Topology rt) : ¬ c.Departed := by
  rintro (harena | hdisposed | hworker)
  · rw [h.arena] at harena
    contradiction
  · rw [h.active] at hdisposed
    contradiction
  · obtain ⟨pc, hpc, -⟩ := (Option.any_eq_true _ _).mp hworker
    have hguarded := ht.guarded staged c h.stagedFiber
    have hrunning := hguarded.consistent.running pc hpc
    have hclosed := hguarded.closed fun hidle => by
      rw [show c.control.phase = .Idle from hidle] at hrunning
      contradiction
    rw [live_of_staged h.gate] at hclosed
    contradiction

/-- `move_providers` finds every provision, so that the install has filed them all. -/
theorem CutFrom.filed (h : CutFrom rt old staged staging target oldCell c) (hentered : Entered rt staged c) :
    c.filedProvisions = c.inner.descriptor.provisions := by
  have hin : ∀ k ∈ c.inner.descriptor.provisions, k ∈ c.filedProvisions := by
    intro k hk
    have hone := h.providers.once k hk
    rw [hentered.declared, if_pos h.scope] at hone
    exact List.count_pos_iff.mp (by omega)
  unfold FiberCell.filedProvisions at hin ⊢
  generalize c.filed - c.inner.descriptor.dependencies.length = n at hin ⊢
  rw [List.take_eq_self_iff]
  by_contra hshort
  -- the first provision that is not filed would be there twice
  have hget := List.getElem_mem (Nat.lt_of_not_le hshort)
  have hnodup := h.providers.nodup
  rw [← List.take_append_drop n c.inner.descriptor.provisions] at hnodup
  have hdrop := List.drop_eq_getElem_cons (Nat.lt_of_not_le hshort)
  exact List.disjoint_of_nodup_append hnodup (hin _ hget) (hdrop ▸ List.mem_cons_self)

/-- A cutover carries the providers along. -/
theorem Mirrors.cut (h : Mirrors rt staged c) (hcut : CutFrom rt old staged staging target oldCell c)
    (ht : Topology rt) (hdependents : rt'.dependents = rt.dependents)
    (hdeclared : rt'.declared = movedProviders rt.declared staging target c.inner.descriptor.provisions staged) :
    Mirrors rt' staged { c with inner := c.inner.cutover target } where
  rightful :=
    { dependents := fun k hf => h.rightful.dependents k (hdependents ▸ hf)
      declared := fun s k hf => by
        rw [hdeclared, movedProviders] at hf
        split_ifs at hf with hk hs ht'
        · simpa using (List.mem_filter.mp hf).2
        · exact ⟨ht'.symm, hk⟩
        · exact absurd ((h.rightful.declared s k hf).1.symm.trans hcut.scope.symm) hs
        · exact absurd (h.rightful.declared s k hf).2 hk }
  entered := fun _ => by
    have hentered := h.entered (hcut.stays ht)
    have hall := hcut.filed hentered
    refine ⟨fun k => by rw [hdependents]; exact hentered.dependents k, fun s k => ?_⟩
    show _ = if s = target then c.filedProvisions.count k else 0
    rw [hdeclared, movedProviders, hall]
    by_cases hk : k ∈ c.inner.descriptor.provisions
    · have hne : staging ≠ target := by
        rintro rfl
        rw [hcut.providers.nil_of_eq] at hk
        cases hk
      rw [if_pos hk, List.count_eq_one_of_mem hcut.providers.nodup hk]
      by_cases hs : s = staging
      · subst hs
        rw [if_pos rfl, if_neg hne, count_filter_ne, if_pos rfl]
      · have hzero : (rt.declared s k).count staged = 0 := by
          rw [hentered.declared, if_neg (hcut.scope ▸ hs)]
        rw [if_neg hs]
        split_ifs
        · rw [List.count_append, hzero, List.count_singleton_self]
        · exact hzero
    · rw [if_neg hk, hentered.declared, hall, List.count_eq_zero.mpr hk, ite_self, ite_self]
  bound := .inr (hcut.filed (h.entered (hcut.stays ht)))

end Cut

theorem Refiles.known (hs : Mirrored rt) (hfollows : Follows rt l rt') (h : Refiles rt l rt')
    (hc : rt.fibers f = some c) (hc' : rt'.fibers f = some c') : Mirrors rt' f c' := by
  have hmirrors := hs.known f c hc
  have hsame : (l = .fiber f .installIndex → rt'.fibers = rt.fibers) → (∀ old staging target,
      l = .commitReload old f staging target → rt'.fibers = rt.fibers) → SameKeys c c' :=
    fun hplain hbound => hfollows.sameKeys hs.sound hplain hbound hc hc'
  cases h with
  | kept plain dependents declared =>
    exact hmirrors.kept (hsame (fun hl => plain (by rw [hl]; rfl)) fun _ _ _ hl => plain (by rw [hl]; rfl))
      (fun k => by rw [dependents]) fun s k => (declared s k).count_eq f
  | filed g d done label was installer now dependents declared =>
    by_cases hfg : f = g
    · subst hfg
      obtain rfl := Option.some.inj (hc.symm.trans was)
      obtain rfl := Option.some.inj (now.symm.trans hc')
      exact hmirrors.filed installer dependents declared
    · have hplain : l = .fiber f .installIndex → rt'.fibers = rt.fibers := by
        intro hl
        cases label.symm.trans hl
        exact absurd rfl hfg
      refine hmirrors.kept (hsame hplain fun _ _ _ hl => by cases label.symm.trans hl) (fun k => ?_) fun s k => ?_
      · rw [dependents]
        exact count_other hfg
      · rw [declared]
        exact count_other hfg
  | removed g departed plain dependents declared =>
    have hkeys : SameKeys c c' := by
      refine hsame (fun hl => ?_) fun _ _ _ hl => ?_
      all_goals
        rw [hl] at plain
        contradiction
    by_cases hfg : f = g
    · subst hfg
      exact hmirrors.thinned hkeys (departed c' hc') (fun k => mem_removed (dependents k))
        fun s k => mem_removed (declared s k)
    · exact hmirrors.kept hkeys (fun k => count_removed hfg (dependents k)) fun s k =>
        count_removed hfg (declared s k)
  | cut old staged staging target oldCell d label found now =>
    have hdependents : rt'.dependents = rt.dependents := by rw [now]; rfl
    have hdeclared : rt'.declared =
        movedProviders rt.declared staging target d.inner.descriptor.provisions staged := by rw [now]; rfl
    by_cases hf : f = staged
    · subst hf
      obtain rfl := Option.some.inj (hc.symm.trans found.stagedFiber)
      obtain rfl : c' = { c with inner := c.inner.cutover target } := by
        rw [now] at hc'
        simpa [cutOver, setFiber, Function.update_of_ne found.ne, eq_comm] using hc'
      exact hmirrors.cut found hs.topology hdependents hdeclared
    · refine hmirrors.kept (hsame (fun hl => by cases label.symm.trans hl) fun _ _ _ hl => ?_)
        (fun k => by rw [hdependents]) fun s k => by rw [hdeclared, movedProviders_count (Ne.symm hf)]
      cases label.symm.trans hl
      exact absurd rfl hf

/-- An index names no Fiber that had no record. -/
theorem Refiles.unknown (hs : Mirrored rt) (h : Refiles rt l rt') (hwas : rt.fibers f = none) :
    (∀ k, f ∉ rt'.dependents k) ∧ ∀ s k, f ∉ rt'.declared s k := by
  obtain ⟨hdependents, hdeclared⟩ := hs.unknown f hwas
  cases h with
  | kept _ dependents declared =>
    exact ⟨fun k hf => hdependents k (dependents ▸ hf), fun s k hf => hdeclared s k ((declared s k).mem_iff.mp hf)⟩
  | filed g d done _ was _ _ dependents declared =>
    have hne : f ≠ g := by
      rintro rfl
      rw [hwas] at was
      cases was
    exact ⟨fun k hf => hdependents k (mem_other hne (dependents k ▸ hf)),
      fun s k hf => hdeclared s k (mem_other hne (declared s k ▸ hf))⟩
  | removed _ _ _ dependents declared =>
    exact ⟨fun k hf => hdependents k (mem_removed (dependents k) hf),
      fun s k hf => hdeclared s k (mem_removed (declared s k) hf)⟩
  | cut old staged staging target oldCell d _ found now =>
    have hne : staged ≠ f := by
      rintro rfl
      cases hwas.symm.trans found.stagedFiber
    have hmoved : rt'.declared =
        movedProviders rt.declared staging target d.inner.descriptor.provisions staged := by rw [now]; rfl
    refine ⟨fun k hf => hdependents k (by rw [now] at hf; exact hf), fun s k hf => hdeclared s k ?_⟩
    exact mem_of_count (movedProviders_count hne s k) (hmoved ▸ hf)

end Runtime

end Cordis
