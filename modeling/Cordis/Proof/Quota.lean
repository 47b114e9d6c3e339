import Cordis.Fiber.Refusal
import Cordis.Fiber.Tenure
import Cordis.Proof.Tree
import Cordis.Runtime.Quota

/-!
# Quotas hold

A step adds at most one entry, to the arena or to the ledger whose quota it has tested, and what it
leaves of the others is no more than there was. A cutover hangs the child Scopes of the staged Fiber
one level higher, so no Scope gets deeper. Only the arena of Fibers is tested before the section that
inserts.
-/

namespace Cordis

open Machine

theorem lt_of_limited {resource : ResourceKind} {used limit : Nat}
    (h : limited resource used limit = .ok ()) : used < limit := by
  unfold limited at h
  split_ifs at h with hfull
  exact Nat.not_le.mp hfull

/-! ## The ledgers of a Fiber -/

/-- The ledgers of Fiber `c` are within their quotas. -/
structure FiberCell.Within (config : RuntimeConfig) (c : FiberCell) : Prop where
  effects : c.inner.effects.length ≤ config.maxEffectsPerFiber
  handlers : c.inner.handlers.length + c.inner.invocationHandlers.length +
    c.inner.invocationMiddleware.length ≤ config.maxHandlersPerFiber
  children : c.inner.childScopes.length ≤ config.maxChildScopesPerFiber
  tasks : c.inner.tasks.length ≤ config.maxTasksPerFiber

variable {config : RuntimeConfig} {c c' : FiberCell}

theorem FiberCell.Within.sheds (hc : c.Within config) (h : c.inner.Sheds c'.inner) :
    c'.Within config where
  effects := h.effects.length_le.trans hc.effects
  handlers := (Nat.add_le_add (Nat.add_le_add h.handlers.length_le
    h.invocationHandlers.length_le) h.invocationMiddleware.length_le).trans hc.handlers
  children := h.childScopes.length_le.trans hc.children
  tasks := h.tasks.length_le.trans hc.tasks

theorem within_registered {entry : Registration} (hc : c.Within config)
    (hq : Runtime.ledgerQuota config c entry = .ok ()) :
    FiberCell.Within config { c with inner := FiberCell.registered entry c.inner } := by
  obtain ⟨heffects, hhandlers, hchildren, htasks⟩ := hc
  cases entry with
  | provided key => exact ⟨heffects, hhandlers, hchildren, htasks⟩
  | effect id =>
    have hroom := lt_of_limited hq
    exact ⟨by simpa [FiberCell.registered] using Nat.succ_le_of_lt hroom, hhandlers, hchildren, htasks⟩
  | handler id | invocationHandler id | invocationMiddleware id =>
    have hroom := lt_of_limited hq
    exact ⟨heffects, by simp [FiberCell.registered]; omega, hchildren, htasks⟩
  | childScope scope =>
    have hroom := lt_of_limited hq
    exact ⟨heffects, hhandlers, by simpa [FiberCell.registered] using Nat.succ_le_of_lt hroom, htasks⟩
  | task id =>
    have hroom := lt_of_limited hq
    exact ⟨heffects, hhandlers, hchildren, by simpa [FiberCell.registered] using Nat.succ_le_of_lt hroom⟩

theorem within_step {a : FiberLabel} (hc : c.Within config) (h : c.step a = some c')
    (hq : ∀ entry, a = .register entry → Runtime.ledgerQuota config c entry = .ok ()) :
    c'.Within config := by
  by_cases hregister : ∃ entry, a = .register entry
  · obtain ⟨entry, rfl⟩ := hregister
    obtain ⟨-, rfl⟩ := step_registers h
    exact within_registered hc (hq entry rfl)
  · exact hc.sheds (step_sheds h fun entry heq => hregister ⟨entry, heq⟩)

namespace Runtime

variable {rt rt' : Runtime} {l : RuntimeLabel} {s : ScopeId}

/-! ## The arenas -/

theorem node_isSome (rt : Runtime) (s : ScopeId) : (rt.node s).isSome = (rt.scope s).isSome := by
  unfold node
  rw [Option.isSome_map]

theorem fiber_arena (ht : Topology rt) (h : rt.step l = some rt') {f : FiberId}
    (hf : (rt'.fiber f).isSome = true) :
    f < rt.nextFiber ∧ (rt.fiber f).isSome = true ∨
      f = rt.nextFiber ∧ ∃ scope plugin descriptor staged, l = .install scope plugin descriptor staged := by
  obtain ⟨c', hc'⟩ := Option.isSome_iff_exists.mp hf
  obtain ⟨hc', hin'⟩ := fiber_eq_some.mp hc'
  have hfollows := step_follows ht h
  cases hc : rt.fibers f with
  | none =>
    obtain ⟨rfl, -, plugin, -, scope, descriptor, -, staged, hl, -⟩ := hfollows.fresh f c' hc' hc
    exact .inr ⟨rfl, scope, plugin, descriptor, staged, hl⟩
  | some c =>
    obtain ⟨d, hd, hstep⟩ := hfollows.cells f c hc
    obtain rfl := Option.some.inj (hc'.symm.trans hd)
    have hin : c.inArena = true := by
      rcases hstep with rfl | ⟨a, ha, -⟩
      · exact hin'
      · exact (step_same ha).arena hin'
    exact .inl ⟨ht.fibers f c hc, Option.isSome_iff_exists.mpr ⟨c, fiber_eq_some.mpr ⟨hc, hin⟩⟩⟩

/-- No Scope has got a parent, but one that is created or moved. -/
def Prunes (rt rt' : Runtime) : Prop :=
  ∀ x n', rt'.node x = some n' → ∃ n, rt.node x = some n ∧ n'.parent = n.parent

theorem prunes_map {k : ScopeId → Node → Node} (hnodes : ∀ x, rt'.node x = (rt.node x).map (k x))
    (hk : ∀ x n, (k x n).parent = n.parent) : Prunes rt rt' := by
  intro x n' hn'
  rw [hnodes] at hn'
  obtain ⟨n, hn, rfl⟩ := Option.map_eq_some_iff.mp hn'
  exact ⟨n, hn, hk x n⟩

theorem step_prunes (ht : Topology rt) (hb : Busy rt) (h : rt.step l = some rt') :
    rt'.nextScope = rt.nextScope ∧ Prunes rt rt' ∨
    (∃ parent, ((∃ hidden, l = .createScope parent hidden) ∨ ∃ f, l = .ownScope f parent) ∧
      rt'.nextScope = rt.nextScope + 1 ∧ parent < rt.nextScope ∧ ∀ x n', rt'.node x = some n' →
        x = rt.nextScope ∧ n'.parent = some parent ∨
        x ≠ rt.nextScope ∧ ∃ n, rt.node x = some n ∧ n'.parent = n.parent) ∨
    ∃ old staged staging target children, l = .commitReload old staged staging target ∧
      rt'.nextScope = rt.nextScope ∧ (∃ n, rt.node staging = some n) ∧
      (∀ x ∈ children, ∃ n, rt.node x = some n ∧ n.parent = some staging) ∧
      ∀ x n', rt'.node x = some n' → ∃ n, rt.node x = some n ∧
        n'.parent = if x ∈ (children : List ScopeId) then some target else n.parent := by
  cases step_reshapes ht hb h with
  | kept hnext hnodes =>
    refine .inl ⟨hnext, fun x n' hn' => ?_⟩
    have hrel := hnodes x
    rw [hn'] at hrel
    generalize rt.node x = o at hrel ⊢
    cases hrel with
    | some hsame => exact ⟨_, rfl, hsame.parent⟩
  | created parent hidden q hl hnext hq _ hnodes =>
    have hlt := (ht.scopes parent q (scope_eq_some.mp hq).1).1
    refine .inr (.inl ⟨parent, hl.imp_left fun hl => ⟨hidden, hl⟩, hnext, hlt, fun x n' hn' => ?_⟩)
    rw [hnodes] at hn'
    by_cases hx : x = rt.nextScope
    · rw [if_pos hx] at hn'
      cases hn'
      exact .inl ⟨hx, rfl⟩
    · rw [if_neg hx] at hn'
      obtain ⟨n, hn, rfl⟩ := Option.map_eq_some_iff.mp hn'
      exact .inr ⟨hx, n, hn, by split_ifs <;> rfl⟩
  | closed s r _ _ hnext _ _ hnodes => exact .inl ⟨hnext, prunes_map hnodes fun x n => rfl⟩
  | listed scope _ _ _ _ hnext hnodes =>
    exact .inl ⟨hnext, prunes_map (k := fun x n => if x = scope then _ else n) hnodes fun x n => by
      split_ifs <;> rfl⟩
  | delisted f _ scope _ _ _ hnext _ _ _ hnodes =>
    exact .inl ⟨hnext, prunes_map hnodes fun x n => by unfold Node.delisted; split_ifs <;> rfl⟩
  | forgotten _ _ hnext _ hnodes =>
    exact .inl ⟨hnext, prunes_map (k := fun _ n => { n with fibers := _ }) hnodes fun x n => rfl⟩
  | swept s _ _ hnext _ _ _ _ _ hnodes =>
    refine .inl ⟨hnext, fun x n' hn' => ?_⟩
    rw [hnodes] at hn'
    split_ifs at hn'
    exact ⟨n', hn', rfl⟩
  | moved old staged staging target _ c hl hnext hcut _ hnodes =>
    refine .inr (.inr ⟨old, staged, staging, target, c.inner.childScopes, hl, hnext, ?_, ?_, ?_⟩)
    · obtain ⟨q, hq, -⟩ := hcut.scopes.leaves
      exact ⟨q.node, by rw [node, hq]; rfl⟩
    · intro x hx
      obtain ⟨r, hr, hparent⟩ := hcut.scopes.parents x hx
      exact ⟨r.node, by rw [node, hr]; rfl, hparent⟩
    · intro x n' hn'
      rw [hnodes] at hn'
      obtain ⟨n, hn, rfl⟩ := Option.map_eq_some_iff.mp hn'
      exact ⟨n, hn, rfl⟩

/-! ## Depth -/

/-- Parents are older than their children. -/
def Elder (rt : Runtime) : Prop := ∀ s n p, rt.node s = some n → n.parent = some p → p < s

theorem parentOf_eq_some {p : ScopeId} :
    rt.parentOf s = some p ↔ ∃ n, rt.node s = some n ∧ n.parent = some p := by
  unfold parentOf node
  cases rt.scope s with
  | none => simp
  | some r => simp [ScopeCell.node]

theorem parentOf_of_node {n : Node} (hn : rt.node s = some n) : rt.parentOf s = n.parent := by
  obtain ⟨r, hr, hin, rfl⟩ := node_eq_some.mp hn
  simp [parentOf, scope_eq_some.mpr ⟨hr, hin⟩, ScopeCell.node]

theorem parentOf_eq_none (hs : rt.node s = none) : rt.parentOf s = none := by
  unfold node at hs
  simp [parentOf, Option.map_eq_none_iff.mp hs]

theorem Elder.ends (he : Elder rt) (s : ScopeId) :
    ∃ n ≤ s + 1, Chain.Ends rt.parentOf (some s) n :=
  Chain.exists_ends id (fun x p hp => by
    obtain ⟨n, hn, hparent⟩ := parentOf_eq_some.mp hp
    exact he x n p hn hparent) s

/-- The loop of `create_scope` comes to its end. -/
theorem Elder.childDepth_ends (he : Elder rt) (hs : s < rt.nextScope) :
    Chain.Ends rt.parentOf (some s) (rt.childDepth s) := by
  obtain ⟨n, hn, hends⟩ := he.ends s
  have hlength : rt.childDepth s = n := hends.length_eq (hn.trans hs)
  rw [hlength]
  exact hends

theorem Elder.depth_ends (he : Elder rt) (hs : s < rt.nextScope) :
    Chain.Ends rt.parentOf (rt.parentOf s) (rt.depth s) := by
  obtain ⟨n, hn, hends⟩ := he.ends s
  cases hends with
  | @more _ n hends =>
    have hlength : rt.depth s = n :=
      hends.length_eq ((Nat.le_of_succ_le_succ hn).trans (Nat.le_of_lt hs))
    rw [hlength]
    exact hends

theorem depth_le_of_shortens {p : ScopeId → Prop} (he : Elder rt) (he' : Elder rt')
    (hp : Chain.Shortens p rt.parentOf rt'.parentOf) (hs : s < rt.nextScope)
    (hs' : s < rt'.nextScope) (hps : p s) : rt'.depth s ≤ rt.depth s := by
  have hends : Chain.Ends rt.parentOf (some s) (rt.depth s + 1) := .more (he.depth_ends hs)
  have hends' : Chain.Ends rt'.parentOf (some s) (rt'.depth s + 1) := .more (he'.depth_ends hs')
  exact Nat.le_of_succ_le_succ (hends.shortened hp (fun y hy => by cases hy; exact hps) hends')

/-- The staging Scope of a cutover hangs below its target. -/
def Grounded (rt : Runtime) (l : RuntimeLabel) : Prop :=
  ∀ old staged staging target, l = .commitReload old staged staging target →
    ∀ n, rt.node staging = some n → n.parent = some target

theorem elder_step (ht : Topology rt) (hb : Busy rt) (he : Elder rt) (hl : Grounded rt l)
    (h : rt.step l = some rt') : Elder rt' := by
  intro x n' p hn' hp
  rcases step_prunes ht hb h with ⟨-, hprunes⟩ | ⟨parent, -, -, hlt, hcreated⟩ |
    ⟨old, staged, staging, target, children, hlabel, -, ⟨q, hq⟩, hchildren, hmoved⟩
  · obtain ⟨n, hn, hparent⟩ := hprunes x n' hn'
    exact he x n p hn (hparent ▸ hp)
  · rcases hcreated x n' hn' with ⟨rfl, hparent⟩ | ⟨-, n, hn, hparent⟩
    · obtain rfl : parent = p := Option.some.inj (hparent.symm.trans hp)
      exact hlt
    · exact he x n p hn (hparent ▸ hp)
  · obtain ⟨n, hn, hparent⟩ := hmoved x n' hn'
    rw [hp] at hparent
    split_ifs at hparent with hchild
    · obtain rfl : p = target := Option.some.inj hparent
      obtain ⟨m, hm, hstaging⟩ := hchildren x hchild
      exact (he staging q p hq (hl _ _ _ _ hlabel q hq)).trans (he x m staging hm hstaging)
    · exact he x n p hn hparent.symm

/-- **No step leaves a Scope deeper than the limit.** -/
theorem depth_step {limit : Nat} (ht : Topology rt) (hb : Busy rt) (he : Elder rt)
    (hl : Grounded rt l)
    (hquota : ∀ parent, (∃ hidden, l = .createScope parent hidden) ∨ (∃ f, l = .ownScope f parent) →
      rt.childDepth parent ≤ limit)
    (hdepth : ∀ s n, rt.node s = some n → rt.depth s ≤ limit) (h : rt.step l = some rt')
    {n' : Node} (hn' : rt'.node s = some n') : rt'.depth s ≤ limit := by
  have he' := elder_step ht hb he hl h
  have hbound : ∀ x n, rt.node x = some n → x < rt.nextScope := by
    intro x n hn
    obtain ⟨r, hr, -⟩ := node_eq_some.mp hn
    exact (ht.scopes x r hr).1
  have hbound' : s < rt'.nextScope := by
    obtain ⟨r, hr, -⟩ := node_eq_some.mp hn'
    exact ((topology_step ht h).scopes s r hr).1
  rcases step_prunes ht hb h with ⟨-, hprunes⟩ | ⟨parent, hlabel, hnext, hlt, hcreated⟩ |
    ⟨old, staged, staging, target, children, hlabel, -, ⟨q, hq⟩, hchildren, hmoved⟩
  · obtain ⟨n, hn, -⟩ := hprunes s n' hn'
    refine (depth_le_of_shortens (p := fun _ => True) he he' (fun x _ => ⟨?_, fun _ _ => trivial⟩)
      (hbound s n hn) hbound' trivial).trans (hdepth s n hn)
    cases hx : rt'.node x with
    | none => exact .inl (parentOf_eq_none hx)
    | some m' =>
      obtain ⟨m, hm, hparent⟩ := hprunes x m' hx
      exact .inr (.inl (by rw [parentOf_of_node hx, parentOf_of_node hm, hparent]))
  · -- below the Scope that is created the chains are what they were
    have hshortens : Chain.Shortens (· < rt.nextScope) rt.parentOf rt'.parentOf := by
      intro x hx
      cases hxn : rt'.parentOf x with
      | none => exact ⟨.inl rfl, fun y hy => by cases hy⟩
      | some p =>
        obtain ⟨m', hm', hp⟩ := parentOf_eq_some.mp hxn
        rcases hcreated x m' hm' with ⟨rfl, -⟩ | ⟨-, m, hm, hparent⟩
        · exact absurd hx (lt_irrefl _)
        · rw [hp] at hparent
          refine ⟨.inr (.inl (by rw [parentOf_of_node hm, hparent])), fun y hy => ?_⟩
          cases hy
          exact (he x m p hm hparent.symm).trans hx
    rcases hcreated s n' hn' with ⟨rfl, hparent⟩ | ⟨hs, n, hn, -⟩
    · have hends' := he'.depth_ends hbound'
      rw [parentOf_of_node hn', hparent] at hends'
      exact ((he.childDepth_ends hlt).shortened hshortens (fun y hy => by cases hy; exact hlt)
        hends').trans (hquota parent hlabel)
    · have hlt := hbound s n hn
      exact (depth_le_of_shortens he he' hshortens hlt hbound' hlt).trans (hdepth s n hn)
  · obtain ⟨n, hn, -⟩ := hmoved s n' hn'
    refine (depth_le_of_shortens (p := fun _ => True) he he' (fun x _ => ⟨?_, fun _ _ => trivial⟩)
      (hbound s n hn) hbound' trivial).trans (hdepth s n hn)
    cases hx : rt'.node x with
    | none => exact .inl (parentOf_eq_none hx)
    | some m' =>
      obtain ⟨m, hm, hparent⟩ := hmoved x m' hx
      right
      by_cases hchild : x ∈ children
      · -- from below the staging Scope to below the parent of the staging Scope
        obtain ⟨m₁, hm₁, hstaging⟩ := hchildren x hchild
        rw [if_pos hchild] at hparent
        right
        rw [parentOf_of_node hx, parentOf_of_node hm₁, hstaging, hparent]
        exact ((parentOf_of_node hq).trans (hl _ _ _ _ hlabel q hq)).symm
      · rw [if_neg hchild] at hparent
        exact .inl (by rw [parentOf_of_node hx, parentOf_of_node hm, hparent])

/-! ## One step -/

/-- The arenas and the ledgers are within their quotas. -/
structure Within (config : RuntimeConfig) (rt : Runtime) : Prop where
  fibers : rt.fiberCount ≤ config.maxFibers
  scopes : rt.scopeCount ≤ config.maxScopes
  depth : ∀ s r, rt.scope s = some r → rt.depth s ≤ config.maxScopeDepth
  ledgers : ∀ f c, rt.fibers f = some c → c.Within config

/-- A Runtime within its quotas, with what keeps it there. -/
structure Gauged (config : RuntimeConfig) (rt : Runtime) : Prop where
  topology : Topology rt
  busy : Busy rt
  elder : Elder rt
  within : Within config rt

theorem gauged_new (hvalid : config.validate = .ok ()) : Gauged config .new where
  topology := topology_new
  busy := busy_new
  elder := fun s n p hn hp => by
    obtain ⟨r, hr, -, rfl⟩ := node_eq_some.mp hn
    simp only [new] at hr
    split_ifs at hr
    cases hr
    cases hp
  within := {
    fibers := Nat.zero_le _
    scopes := RuntimeConfig.maxScopes_pos hvalid
    depth := fun s r hr => by
      have hroot : s = root := by
        have hr := (scope_eq_some.mp hr).1
        simp only [new] at hr
        split_ifs at hr with hs
        exact hs
      subst hroot
      exact Nat.zero_le _
    ledgers := fun f c hc => by cases hc }

theorem quota_ok (h : rt.quota config l = .ok ()) :
    (∀ f entry, rt.entryOf l = some (f, entry) → ∀ c, rt.fibers f = some c →
      ledgerQuota config c entry = .ok ()) ∧
    (∀ scope plugin descriptor staged, l = .install scope plugin descriptor staged →
      rt.fiberCount < config.maxFibers) ∧
    ∀ parent, (∃ hidden, l = .createScope parent hidden) ∨ (∃ f, l = .ownScope f parent) →
      rt.scopeCount < config.maxScopes ∧ rt.childDepth parent ≤ config.maxScopeDepth := by
  obtain ⟨hentry, harena⟩ := Outcome.bind_ok h
  refine ⟨fun f entry he c hc => ?_, ?_, fun parent hl => ?_⟩
  · simpa only [entryQuota, he, hc] using hentry
  · rintro scope plugin descriptor staged rfl
    exact lt_of_limited harena
  · have hscopes : rt.scopeQuota config parent = .ok () := by
      rcases hl with ⟨hidden, rfl⟩ | ⟨f, rfl⟩ <;> exact harena
    obtain ⟨hcount, hdepth⟩ := Outcome.bind_ok hscopes
    split_ifs at hdepth with hdeep
    exact ⟨lt_of_limited hcount, Nat.not_lt.mp hdeep⟩

theorem entryOf_acts {f : FiberId} {entry : Registration} (h : Acts rt f c l (.register entry)) :
    rt.entryOf l = some (f, entry) := by
  generalize ha : FiberLabel.register entry = a at h
  cases h with
  | own answer =>
    subst ha
    exact congrArg (fun l => rt.entryOf (.fiber f l)) (answered_register answer)
  | visited | superseded | cut => cases ha
  | provided | handled | intercepted | owned =>
    cases ha
    rfl

theorem gauged_step (hg : Gauged config rt) (hq : rt.quota config l = .ok ()) (hl : Grounded rt l)
    (h : rt.step l = some rt') : Gauged config rt' := by
  obtain ⟨ht, hb, he, hfibers, hscopes, hdepth, hledgers⟩ := hg
  obtain ⟨hentry, hinstall, hcreate⟩ := quota_ok hq
  have hfollows := step_follows ht h
  have ht' := topology_step ht h
  refine ⟨ht', busy_step ht hb h, elder_step ht hb he hl h, ?_, ?_, ?_, ?_⟩
  · by_cases hlabel : ∃ scope plugin descriptor staged, l = .install scope plugin descriptor staged
    · obtain ⟨scope, plugin, descriptor, staged, hlabel⟩ := hlabel
      have hroom := hinstall scope plugin descriptor staged hlabel
      have hcount : rt'.fiberCount ≤ rt.fiberCount + 1 :=
        Tally.count_le_succ (k := rt.nextFiber) fun f _ hf =>
          (fiber_arena ht h hf).symm.imp_left And.left
      exact hcount.trans hroom
    · have hcount : rt'.fiberCount ≤ rt.fiberCount := Tally.count_le fun f _ hf =>
        (fiber_arena ht h hf).resolve_right fun hnew => hlabel hnew.2
      exact hcount.trans hfibers
  · -- the arena of Scopes
    have hold : ∀ x n, rt.node x = some n → x < rt.nextScope ∧ (rt.scope x).isSome = true := by
      intro x n hn
      obtain ⟨r, hr, hin, -⟩ := node_eq_some.mp hn
      exact ⟨(ht.scopes x r hr).1, by rw [scope_eq_some.mpr ⟨hr, hin⟩]; rfl⟩
    have hnode : ∀ x, (rt'.scope x).isSome = true → ∃ n', rt'.node x = some n' := fun x hx =>
      Option.isSome_iff_exists.mp ((node_isSome rt' x).trans hx)
    rcases step_prunes ht hb h with ⟨-, hprunes⟩ | ⟨parent, hlabel, -, -, hcreated⟩ |
      ⟨_, _, _, _, _, -, -, -, -, hmoved⟩
    · refine (Tally.count_le fun x _ hx => ?_).trans hscopes
      obtain ⟨n', hn'⟩ := hnode x hx
      obtain ⟨n, hn, -⟩ := hprunes x n' hn'
      exact hold x n hn
    · refine (Tally.count_le_succ (k := rt.nextScope) fun x _ hx => ?_).trans (hcreate parent hlabel).1
      obtain ⟨n', hn'⟩ := hnode x hx
      rcases hcreated x n' hn' with ⟨hx, -⟩ | ⟨-, n, hn, -⟩
      · exact .inl hx
      · exact .inr (hold x n hn)
    · refine (Tally.count_le fun x _ hx => ?_).trans hscopes
      obtain ⟨n', hn'⟩ := hnode x hx
      obtain ⟨n, hn, -⟩ := hmoved x n' hn'
      exact hold x n hn
  · intro s r' hr'
    have hn' : rt'.node s = some r'.node := by rw [node, hr']; rfl
    refine depth_step ht hb he hl (fun parent hlabel => (hcreate parent hlabel).2) ?_ h hn'
    intro x n hn
    obtain ⟨r, hr, hin, -⟩ := node_eq_some.mp hn
    exact hdepth x r (scope_eq_some.mpr ⟨hr, hin⟩)
  · intro f c' hc'
    cases hc : rt.fibers f with
    | none =>
      obtain ⟨-, -, -, p, s, d, g, b, -, rfl⟩ := hfollows.fresh f c' hc' hc
      exact ⟨Nat.zero_le _, Nat.zero_le _, Nat.zero_le _, Nat.zero_le _⟩
    | some c =>
      obtain ⟨d, hd, hstep⟩ := hfollows.cells f c hc
      obtain rfl := Option.some.inj (hc'.symm.trans hd)
      rcases hstep with rfl | ⟨a, ha, hacts⟩
      · exact hledgers f c' hc
      · exact within_step (hledgers f c hc) ha fun entry hentry' => by
          subst hentry'
          exact hentry f entry (entryOf_acts hacts) c hc

end Runtime

namespace Metered

variable {m m' : Metered} {l : MeteredLabel}

/-- Arenas, tree, ledgers and tasks are within their quotas. -/
structure Within (config : RuntimeConfig) (m : Metered) : Prop where
  runtime : m.runtime.Within config
  tasks : ∀ f, (m.liveTasks f).length ≤ config.maxTasksPerFiber

/-- A spawn comes while no task of its Fiber is out of the ledger. -/
def Kept (m : Metered) : MeteredLabel → Prop
  | .spawn f => m.runtime.InLedger m.tasks m.nextTask f
  | _ => True

instance (m : Metered) (l : MeteredLabel) : Decidable (m.Kept l) := by
  unfold Kept
  split <;> infer_instance

theorem liveTasks_lt {f : FiberId} {c : FiberCell} (hc : m.runtime.fibers f = some c)
    (hkept : m.runtime.InLedger m.tasks m.nextTask f) (hroom : c.inner.tasks.length < config.maxTasksPerFiber) :
    (m.liveTasks f).length < config.maxTasksPerFiber := by
  have hsub : m.liveTasks f ⊆ c.inner.tasks := by
    intro id hid
    obtain ⟨hlt, hlive⟩ := List.mem_filter.mp hid
    simpa [hc] using hkept id (List.mem_range.mp hlt) (of_decide_eq_true hlive)
  have hle := (List.subperm_of_subset (List.nodup_range.filter _) hsub).length_le
  exact hle.trans_lt hroom

theorem within_step (hg : m.runtime.Gauged config) (hm : m.Within config)
    (hok : (quotas config).split l = false → m.Kept l) (h : m.step config l = some m') :
    m'.runtime.Gauged config ∧ m'.Within config := by
  cases l <;> simp only [step] at h
  case runtime l =>
    split_ifs at h with hready
    obtain ⟨rt, hrt, rfl⟩ := Option.map_eq_some_iff.mp h
    have hgrounded : m.runtime.Grounded l := by
      rintro old staged staging target rfl n hn
      obtain ⟨r, hr, hin, rfl⟩ := Runtime.node_eq_some.mp hn
      have hready := hready.2
      have hparent : r.parent = some target := by
        simpa [ready, Runtime.scope_eq_some.mpr ⟨hr, hin⟩] using hready
      exact hparent
    have hg' := Runtime.gauged_step hg (Outcome.isOk_eq hready.1) hgrounded hrt
    exact ⟨hg', hg'.within, hm.tasks⟩
  case spawn f =>
    split_ifs at h with hquota
    obtain ⟨rt, hrt, rfl⟩ := Option.map_eq_some_iff.mp h
    have hquota := Outcome.isOk_eq hquota
    have hg' := Runtime.gauged_step hg hquota (fun _ _ _ _ hl => by cases hl) hrt
    refine ⟨hg', hg'.within, fun g => ?_⟩
    by_cases hf : g = f
    · subst hf
      obtain ⟨c, a, c', hc, -⟩ := Runtime.fiberStep_spec hrt
      have hroom : c.inner.tasks.length < config.maxTasksPerFiber :=
        lt_of_limited ((Runtime.quota_ok hquota).1 g _ rfl c hc)
      have hlive := liveTasks_lt hc (hok rfl) hroom
      refine (Tally.count_le_succ (k := m.nextTask) fun x hx hg => ?_).trans hlive
      by_cases hnew : x = m.nextTask
      · exact .inl hnew
      · refine .inr ⟨?_, ?_⟩
        · exact Nat.lt_of_le_of_ne (Nat.le_of_lt_succ hx) hnew
        · simpa [hnew] using hg
    · refine (Tally.count_le fun x hx hg => ?_).trans (hm.tasks g)
      by_cases hnew : x = m.nextTask
      · subst hnew
        simp [Ne.symm hf] at hg
      · refine ⟨Nat.lt_of_le_of_ne (Nat.le_of_lt_succ hx) hnew, ?_⟩
        simpa [hnew] using hg
  case taskEnded id =>
    split_ifs at h
    cases h
    refine ⟨hg, hm.runtime, fun f => (Tally.count_le fun x hx hf => ⟨hx, ?_⟩).trans (hm.tasks f)⟩
    have hne : x ≠ id := by
      rintro rfl
      simp at hf
    simpa [hne] using hf

/-- Each install inserts its Fiber while the test it has passed still holds, and each spawn comes while
no task of its Fiber is out of the ledger. -/
def Timely {τ : Type} [DecidableEq τ] (config : RuntimeConfig)
    (s : TwoPhase.State Metered τ MeteredLabel) (l : TwoPhase.Label τ MeteredLabel) : Prop :=
  (quotas config).Fresh s l ∧ TwoPhase.Whole Kept s l

instance {τ : Type} [DecidableEq τ] (config : RuntimeConfig)
    (s : TwoPhase.State Metered τ MeteredLabel) (l : TwoPhase.Label τ MeteredLabel) :
    Decidable (Timely config s l) := by
  unfold Timely
  infer_instance

/-- **The quotas bound the arenas**, in every run in which each test still holds when its entry is
inserted. -/
theorem quotas_bound {τ : Type} [DecidableEq τ] (hvalid : config.validate = .ok ())
    {t : TwoPhase.State Metered τ MeteredLabel}
    (h : Reach (quotas config).run (Timely config) (TwoPhase.start .new) t) :
    t.inner.Within config := by
  have hboth : t.inner.runtime.Gauged config ∧ t.inner.Within config := by
    have hnew := Runtime.gauged_new hvalid
    refine TwoPhase.invariant (I := fun m => m.runtime.Gauged config ∧ m.Within config)
      ⟨hnew, hnew.within, fun f => Nat.zero_le _⟩ (fun m l m' hm hok hstep => ?_) (fun _ _ _ _ _ hidle => ?_) h
    · exact within_step hm.1 hm.2 hok hstep
    · cases hidle
  exact hboth.2

/-- A configuration with room for one Fiber, which has room for one task. -/
def narrow : RuntimeConfig := { RuntimeConfig.default with maxFibers := 1, maxTasksPerFiber := 1 }

/-- An install for the root Scope. -/
def plainInstall : MeteredLabel := .runtime (.install 0 none ⟨[], [], .Restart⟩ false)

/-- Fiber 0 is installed; while it starts it spawns a task and creates a Scope. -/
def starting : List (TwoPhase.Label Nat MeteredLabel) :=
  [.check 0 plainInstall, .act 0] ++
    ([.runtime (.fiber 0 (.installValidate (.ok ()))), .runtime (.fiber 0 (.installCheck true)),
      .runtime (.fiber 0 (.activationLock 0)),
      .runtime (.fiber 0 (.activationBegin 0 true (.ok 0))),
      .runtime (.fiber 0 (.activationPoll 0)), .spawn 0, .runtime (.ownScope 0 0)] :
      List MeteredLabel).map .whole

/-- A Fiber that fills its quotas stays within them. -/
theorem quotas_bound_starting :
    ∃ t : TwoPhase.State Metered Nat MeteredLabel,
      Reach (quotas narrow).run (Timely narrow) (TwoPhase.start .new) t ∧ t.inner.Within narrow ∧
        t.inner.runtime.fiberCount = 1 ∧ t.inner.liveTasks 0 = [0] ∧
        t.inner.runtime.depth 1 = 1 := by
  have hrun : ((runIf (quotas narrow).run (Timely narrow)
      (TwoPhase.start .new : TwoPhase.State Metered Nat MeteredLabel) starting).any fun t =>
        t.inner.runtime.fiberCount = 1 ∧ t.inner.liveTasks 0 = [0] ∧
          t.inner.runtime.depth 1 = 1) = true := by
    decide
  obtain ⟨t, ht, hrun⟩ := (Option.any_eq_true _ _).mp hrun
  have hreach := reach_of_runIf ht
  exact ⟨t, hreach, quotas_bound (by decide) hreach, of_decide_eq_true hrun⟩

/-- Two installs that look at the arena before either has inserted exceed the quota. -/
theorem quota_exceeded :
    ¬ ∀ (config : RuntimeConfig) (t : TwoPhase.State Metered Nat MeteredLabel),
      config.validate = .ok () → Reach (quotas config).run anyStep (TwoPhase.start .new) t →
        t.inner.Within config := by
  intro hclaim
  have hrun : ((run (quotas narrow).run
      (TwoPhase.start .new : TwoPhase.State Metered Nat MeteredLabel)
      [.check 0 plainInstall, .check 1 plainInstall, .act 0, .act 1]).any fun t =>
        t.inner.runtime.fiberCount = 2) = true := by
    decide
  obtain ⟨t, ht, hcount⟩ := (Option.any_eq_true _ _).mp hrun
  have hwithin := hclaim narrow t (by decide) (reach_of_run ht)
  have hle : t.inner.runtime.fiberCount ≤ 1 := hwithin.runtime.fibers
  rw [of_decide_eq_true hcount] at hle
  exact absurd hle (by decide)

end Metered

end Cordis
